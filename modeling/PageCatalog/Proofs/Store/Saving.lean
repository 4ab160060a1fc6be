import Mathlib.Tactic
import PageCatalog.Proofs.Device.Hampered
import PageCatalog.Proofs.Store.Calls
import PageCatalog.Proofs.Store.Serving

/-!
What a flush saves.

A flush that comes to its end leaves in the files what is in memory, whatever has failed
before it: the next session finds all pages there. A flush that is broken off loses nothing,
and nothing but a flush writes to a file.

* `Session.rewrite`: a change through a pin that was taken earlier.
* `PinEvent`, `Session.afterAll`: histories with such changes.
* `Session.Leads`: what a whole history keeps; `PinEvent.step_leads`, `afterAll_leads`.
* `Session.Stale`, `afterAll_spent`: freed pages stay full of zeros, but for old pins.
* `Session.recount`, `reopened_array`: the pages that the next session finds.
* `Session.files_of_flush`: the files after a flush.
* `Session.flushIn_torn`, `Session.hampered`: a flush that is broken off inside a page.
-/

namespace PageCatalog

/-! ### Old pins -/

namespace Session

variable {δ : Type}

/-- A page in memory is changed through a pin that was taken earlier, whether or not the page
was freed in between. There is no pin of a page that is not in memory. -/
def rewrite (c : CacheId) (i : ℕ) (f : Page → Page) : SessionM δ Unit := do
  if let some frame := ((← get).store.caches[c]?).bind (·.frames[i]?) then
    putFrame c i { frame with bytes := f frame.bytes, dirty := true }

variable [Device δ] {A : Device.Account δ} {s : Session δ} {c : CacheId} {i : ℕ} {f : Page → Page}

/-- A change through an old pin is a change of one page, perhaps of a freed one. -/
lemma rewrite_turns (hs : s.Backed A c) (hf : ∀ p, (f p).size = p.size) :
    ∃ p, s.Turns A c ((s.array A c).set i p) (rewrite c i f s).2 := by
  cases hframe : (s.store.caches[c]?).bind (·.frames[i]?) with
  | none =>
      have hrun : rewrite c i f s = (.ok (), s) := by
        rw [rewrite, run_bind_ok (run_get s)]
        simp only [hframe]
        rfl
      refine ⟨(s.array A c).page i, ?_⟩
      rw [PageArray.set, Function.update_eq_self, hrun]
      exact .refl hs
  | some g =>
      obtain ⟨k, hk, hg⟩ := Option.bind_eq_some_iff.mp hframe
      have hrun : rewrite c i f s
          = (.ok (), s.withFrame c i { g with bytes := f g.bytes, dirty := true }) := by
        rw [rewrite, run_bind_ok (run_get s)]
        simp only [hframe]
        exact putFrame_run c i _ s
      have hturns := withFrame_turns hs hk hg (g := { g with bytes := f g.bytes, dirty := true })
        ((hf _).trans ((hs.opened hk).frame_size hg)) rfl
      refine ⟨f g.bytes, ?_⟩
      rw [hrun]
      -- the page is freed afterwards if and only if it was before
      have hfreed : (if g.freed then insert i (s.array A c).freed else (s.array A c).freed.erase i)
          = (s.array A c).freed := by
        have hmem : i ∈ (s.array A c).freed ↔ g.freed = true := by
          rw [array_open hk]
          change i ∈ k.freed ↔ _
          rw [CacheFile.mem_freed]
          exact ⟨fun ⟨g', hg', h⟩ => Option.some.inj (hg.symm.trans hg') ▸ h, fun h => ⟨g, hg, h⟩⟩
        split
        · exact Finset.insert_eq_self.mpr (hmem.mpr ‹_›)
        · exact Finset.erase_eq_of_notMem fun h => ‹¬ _› (hmem.mp h)
      rwa [hfreed] at hturns

end Session

/-! ### Histories -/

/-- What happens to a store whose pages may be changed through old pins. -/
inductive PinEvent (δ : Type) where
  | event (event : StoreEvent δ)
  | rewrite (c : CacheId) (i : ℕ) (f : Page → Page) (hf : ∀ p, (f p).size = p.size)

namespace PinEvent

variable {δ : Type} [Device δ]

/-- An event of the store, or bytes written to a page through an old pin. -/
def step : PinEvent δ → Session δ → Session δ
  | .event e, s => Session.after [e] s
  | .rewrite c i f _, s => (Session.rewrite c i f s).2

/-- An event that is a flush. -/
def IsFlush (e : PinEvent δ) : Prop := ∃ o, e = .event (.call (.flush o))

/-- What becomes of the device by itself leaves its files as they are. -/
def Steady (A : Device.Account δ) (e : PinEvent δ) : Prop :=
  ∀ f, e = .event (.turn f) → ∀ d, A.Honest d → A.Stays d (f d)

end PinEvent

namespace Session

variable {δ : Type} [Device δ] {A : Device.Account δ} {s s' s'' : Session δ} {c : CacheId} {i : ℕ}
  {a : PageArray} {e : PinEvent δ} {events : List (PinEvent δ)}

/-- The session after some events. -/
def afterAll (events : List (PinEvent δ)) (s : Session δ) : Session δ :=
  events.foldl (fun s e => e.step s) s

/-- One more event. -/
lemma afterAll_concat (events : List (PinEvent δ)) (e : PinEvent δ) (s : Session δ) :
    afterAll (events ++ [e]) s = e.step (afterAll events s) := by
  rw [afterAll, List.foldl_append, List.foldl_cons, List.foldl_nil, afterAll]

/-- A session goes on to go with its files, which are not cut off. -/
structure Leads (A : Device.Account δ) (s s' : Session δ) : Prop where
  backed : ∀ c, s'.Backed A c
  folder : s'.store.folder = s.store.folder
  options : s'.store.options = s.store.options
  present : ∀ {path}, A.Present s.device path → A.Present s'.device path
  grows : ∀ c, Grows s.size (s.file A c) (s'.file A c)

/-- Nothing has happened. -/
lemma Leads.refl (h : ∀ c, s.Backed A c) : s.Leads A s :=
  ⟨h, rfl, rfl, fun h => h, fun _ => .refl _ _⟩

/-- The page size is the same. -/
lemma Leads.size (h : s.Leads A s') : s'.size = s.size := by rw [Session.size, h.options]

/-- One part of a history and the next one. -/
lemma Leads.trans (h : s.Leads A s') (h' : s'.Leads A s'') : s.Leads A s'' :=
  ⟨h'.backed, h'.folder.trans h.folder, h'.options.trans h.options,
    fun hpath => h'.present (h.present hpath), fun c => (h.grows c).trans (h.size ▸ h'.grows c)⟩

/-- A call for a cache leads on. -/
lemma Turns.leads (hs : ∀ c, s.Backed A c) (h : s.Turns A c a s') : s.Leads A s' :=
  ⟨PageCall.turns_backed hs h, h.folder, h.only.options, h.present, fun c => by
    rw [h.file]
    exact .refl _ _⟩

/-- A call that only asks the device leads on. -/
lemma Asks.leads (hs : ∀ c, s.Backed A c) (h : s.Asks A s') : s.Leads A s' :=
  (h.turns (hs 0)).leads hs

/-- A flush leads on, also where it is broken off. -/
lemma Saves.leads (h : s.Saves A Set.univ s') : s.Leads A s' :=
  ⟨fun c => h.backed c trivial, h.folder, h.options, h.present, fun c => h.grows c trivial⟩

/-! ### One event -/

/-- One event leads on, and changes no file unless it is a flush. -/
lemma step_leads (hs : ∀ c, s.Backed A c) (he : e.Steady A) :
    s.Leads A (e.step s) ∧ (¬ e.IsFlush → A.bytes (e.step s).device = A.bytes s.device) := by
  match e with
  | .event (.call call) =>
      have h := PageCall.step_answers hs call
      exact ⟨⟨h.backed, h.folder, h.options, h.present, h.grows⟩,
        fun hflush => h.files fun o ho => hflush ⟨o, by rw [ho]⟩⟩
  | .event (.turn f) =>
      have hasks : s.Asks A (PinEvent.step (.event (.turn f)) s) :=
        ⟨rfl, he f rfl _ (hs 0).honest⟩
      exact ⟨hasks.leads hs, fun _ => hasks.stays.bytes⟩
  | .rewrite c i f hf =>
      obtain ⟨p, h⟩ := rewrite_turns (i := i) (hs c) hf
      exact ⟨h.leads hs, fun _ => h.files⟩

/-- A freed page stays full of zeros unless it is written through an old pin. -/
lemma step_spent (hs : ∀ c, s.Backed A c) (he : e.Steady A) (h : (s.array A c).Spent s.size i) :
    ((e.step s).array A c).Spent s.size i ∨
      ∃ f hf, e = .rewrite c i f hf ∧ i ∈ (s.array A c).freed := by
  -- A call keeps freed pages as they are, a turn of the device does not see them; only a pin that
  -- is older than the freeing can write to one.
  match e with
  | .event (.call call) =>
      left
      rw [show PinEvent.step (.event (.call call)) s = (call.step s).2 from rfl,
        (PageCall.step_answers hs call).arrays]
      exact PageCall.update_spent h _ _
  | .event (.turn f) =>
      have hasks : s.Asks A (PinEvent.step (.event (.turn f)) s) :=
        ⟨rfl, he f rfl _ (hs 0).honest⟩
      left
      rwa [(hasks.same c).array]
  | .rewrite c' j f hf =>
      obtain ⟨p, hturns⟩ := rewrite_turns (i := j) (hs c') hf
      change ((rewrite c' j f s).2.array A c).Spent s.size i ∨ _
      by_cases hc : c = c'
      · subst hc
        rw [hturns.array]
        by_cases hij : i = j
        · subst hij
          exact (Classical.em (i ∈ (s.array A c).freed)).symm.imp (fun hout => h.set (.inr hout))
            fun hin => ⟨f, hf, rfl, hin⟩
        · exact .inl (h.set (.inl hij))
      · left
        rwa [(hturns.other hc).array]

/-! ### All events -/

/-- A history leads on, by induction on its events. -/
lemma afterAll_leads (hs : ∀ c, s.Backed A c) (hevents : ∀ e ∈ events, e.Steady A) :
    s.Leads A (afterAll events s) := by
  induction events generalizing s with
  | nil => exact .refl hs
  | cons e rest ih =>
      have h := (step_leads hs (hevents e List.mem_cons_self)).1
      exact h.trans (ih h.backed fun e he => hevents e (List.mem_cons_of_mem _ he))

/-- Without a flush no file changes. -/
lemma afterAll_files (hs : ∀ c, s.Backed A c) (hevents : ∀ e ∈ events, e.Steady A ∧ ¬ e.IsFlush) :
    A.bytes (afterAll events s).device = A.bytes s.device := by
  induction events generalizing s with
  | nil => rfl
  | cons e rest ih =>
      obtain ⟨hsteady, hflush⟩ := hevents e List.mem_cons_self
      obtain ⟨h, hfiles⟩ := step_leads hs hsteady
      exact (ih h.backed fun e he => hevents e (List.mem_cons_of_mem _ he)).trans (hfiles hflush)

/-- At some time among the events a page that had been freed was changed through an old
pin. -/
def Stale (A : Device.Account δ) (events : List (PinEvent δ)) (s : Session δ) (c : CacheId)
    (i : ℕ) : Prop :=
  ∃ before f hf rest, events = before ++ .rewrite c i f hf :: rest ∧
    i ∈ ((afterAll before s).array A c).freed

/-- Freed pages are full of zeros, but for those that old pins have written to. -/
lemma afterAll_spent (hs : ∀ c, s.Backed A c) (hevents : ∀ e ∈ events, e.Steady A)
    (h : (s.array A c).Spent s.size i) :
    ((afterAll events s).array A c).Spent s.size i ∨ Stale A events s c i := by
  induction events generalizing s with
  | nil => exact .inl h
  | cons e rest ih =>
      have he := hevents e List.mem_cons_self
      have hleads := (step_leads hs he).1
      obtain hspent | ⟨f, hf, rfl, hin⟩ := step_spent hs he h
      · rw [← hleads.size] at hspent
        refine (ih hleads.backed (fun e he => hevents e (List.mem_cons_of_mem _ he)) hspent).imp
          (fun h => hleads.size ▸ h) ?_
        rintro ⟨before, f, hf, rest', rfl, hin⟩
        exact ⟨e :: before, f, hf, rest', rfl, hin⟩
      · exact .inr ⟨[], f, hf, rest, rfl, hin⟩

/-! ### Opening the files again -/

/-- How many pages a cache has when its file is opened again. Where the file had more pages
than fit the 32 bits of an index, they are counted as they were the first time. -/
def recount (file : Bytes) (size : ℕ) (a : PageArray) : ℕ :=
  if file.length < 0x100000000 * size then a.count else (PageArray.ofFile file size).count

/-- The files that all pages were written to give the pages back. -/
lemma ofFile_of_clean (hs : s.Backed A c) (hclean : ∀ i, s.Clean c i)
    (hopen : c ∈ s.store.caches) {file : Bytes} (hgrows : Grows s.size file (s.file A c)) :
    s.size ∣ (s.file A c).length ∧ (∀ i, (s.array A c).page i = Bytes.pageAt (s.file A c) s.size i) ∧
      (PageArray.ofFile (s.file A c) s.size).count = recount file s.size (s.array A c) := by
  obtain ⟨k, hk⟩ := Option.isSome_iff_exists.mp (Std.TreeMap.mem_iff_isSome_getElem?.mp hopen)
  obtain ⟨hwhole, hpages, hcount⟩ := (hs.opened hk).ofFile_eq hs.size_pos fun i f hf => hclean i k f hk hf
  rw [array_open hk]
  refine ⟨hwhole, hpages, ?_⟩
  rw [recount]
  split
  · rename_i hfew
    exact hcount (by unfold Grows at hgrows; omega)
  · rename_i hmany
    have hlength : (s.file A c).length = file.length := by
      unfold Grows at hgrows
      omega
    rw [PageArray.ofFile, PageArray.ofFile, hlength]

section Found

variable {folder : String} {own : Set String} {V : A.Service folder own} {options : Options} {d : δ}

/-- A store is opened without fail where its folder can be made. -/
lemma start_made (hcheck : options.check = .ok ()) (hcreate : options.createIfMissing = true)
    (hmade : Ends (Device.makeDirs folder) d (fun _ d' => V.Ready d') fun _ _ => False) :
    ∃ store d', start folder options d = (.ok store, d') ∧ V.Ready d' := by
  rcases hmake : Device.makeDirs folder d with ⟨e | ⟨⟩, d'⟩
  · exact (hmade.error hmake).elim
  · exact ⟨{ folder, options }, d', by simp only [start, hcheck, hcreate, if_true, hmake],
      hmade.ok hmake⟩

/-- A store is opened without fail where the device serves. -/
lemma start_served (hcheck : options.check = .ok ()) (hready : V.Ready d) :
    ∃ store d', start folder options d = (.ok store, d') ∧ V.Ready d' := by
  cases hcreate : options.createIfMissing with
  | false =>
      exact ⟨{ folder, options }, d, by simp only [start, hcheck, hcreate, Bool.false_eq_true, if_false],
        hready⟩
  | true => exact start_made hcheck hcreate (V.makeDirs_serves d hready)

/-- A store can be opened on a device and finds a session again: it counts the pages of each
cache that was open as `recount` says, from the files that the session was opened over, and
shows each of them as it was. -/
def Found (A : Device.Account δ) (options : Options) (files : CacheId → Bytes) (d : δ) (s : Session δ) :
    Prop :=
  ∃ store d', start s.store.folder options d = (.ok store, d') ∧
    ∀ pages : List (CacheId × PageId), (∀ e ∈ pages, e.1 ∈ s.store.caches ∧
        e.2.index < recount (files e.1) s.size (s.array A e.1)) →
      Ends (pages.mapM fun e => look e.1 e.2) ⟨d', store⟩
        (fun rs _ => rs = pages.map fun e =>
          (recount (files e.1) s.size (s.array A e.1), (s.array A e.1).page e.2.index))
        (fun _ _ => False)

/-- The next session finds the pages that the last one has written. -/
lemma found_of_clean (hs : ∀ c, s.Backed A c) (hclean : ∀ c i, s.Clean c i)
    (hfolder : s.store.folder = folder) (hown : ∀ c ∈ s.store.caches, s.store.pathOf c ∈ own)
    (hcheck : options.check = .ok ()) (hsize : options.pageSize = s.size)
    (hd : A.Stays s.device d) (hready : V.Ready d) {files : CacheId → Bytes}
    (hgrows : ∀ c, Grows s.size (files c) (s.file A c)) : s.Found A options files d := by
  obtain ⟨store, d', hstart, hready'⟩ := start_served hcheck hready
  refine ⟨store, d', hfolder ▸ hstart, fun pages hpages => ?_⟩
  obtain ⟨-, hstore, -⟩ := store_of_start hstart
  have hpath : ∀ c, store.pathOf c = s.store.pathOf c := fun c => by
    rw [hstore, PageStore.pathOf, PageStore.pathOf, hfolder]
  have hfile : ∀ c, A.bytes d (store.pathOf c) = s.file A c := fun c => by
    rw [hd.bytes, hpath, file]
  -- each cache that was open has the pages it had
  have hfound : ∀ c ∈ s.store.caches, (⟨d', store⟩ : Session δ).Backed A c ∧
      A.Present d' (store.pathOf c) ∧
      ((⟨d', store⟩ : Session δ).array A c).count = recount (files c) s.size (s.array A c) ∧
      ((⟨d', store⟩ : Session δ).array A c).freed = ∅ ∧
      ∀ i, ((⟨d', store⟩ : Session δ).array A c).page i = (s.array A c).page i := by
    intro c hc
    obtain ⟨k, hk⟩ := Option.isSome_iff_exists.mp (Std.TreeMap.mem_iff_isSome_getElem?.mp hc)
    obtain ⟨hwhole, hpages, hcount⟩ := ofFile_of_clean (hs c) (hclean c) hc (hgrows c)
    obtain ⟨hbacked, hstays, harray⟩ := start_backed (A := A) (c := c) hstart hd.honest
      (fun c' hc' => by rw [hpath, hpath]; exact (hs c).apart c' hc')
      (by rw [hfile, hsize]; exact hwhole)
    rw [harray, hfile, hsize]
    exact ⟨hbacked, hstays.present (hd.present (hpath c ▸ (hs c).present hk)), hcount, rfl,
      fun i => (hpages i).symm⟩
  have hserved : ∀ c ∈ s.store.caches, (⟨d', store⟩ : Session δ).Served V c := fun c hc =>
    ⟨hready', (hpath c).symm ▸ hown c hc, .inr (hfound c hc).2.1⟩
  refine (looks_served (C := {c | c ∈ s.store.caches}) (fun c hc => (hfound c hc).1) hserved pages
    fun e he => ?_).mono_ok ?_
  · obtain ⟨hc, hlt⟩ := hpages e he
    obtain ⟨-, -, hcount, hfreed, -⟩ := hfound e.1 hc
    exact ⟨hc, by rwa [hcount], by rw [hfreed]; exact Finset.notMem_empty _⟩
  · rintro rs - rfl
    refine List.map_congr_left fun e he => ?_
    obtain ⟨-, -, hcount, -, hpage⟩ := hfound e.1 (hpages e he).1
    rw [hcount, hpage]

end Found

/-! ### The files after a flush -/

/-- A store is opened over files that are cut into whole pages. Calls are made of it and pages
are changed, also through pins that are older than the freeing of the page, on a device that
may fail at any call and move as few bytes as it likes, and may become another one at any time,
but tells no false sizes. Then

* nothing but a flush changes a file;
* a flush that is broken off, between two pages or inside one, changes no page in memory;
* after a flush that comes to its end, in whatever order it went through the pages, each page
  of each open cache stands in its file as it is in memory, and freed pages are full of zeros,
  but for those that an old pin has written to since they were freed;
* a store that is opened over these files where the device serves, however much has been done
  without a flush before, finds the pages of the moment of the flush. -/
theorem files_of_flush {folder : String} {options : Options} {d d' : δ} {store : PageStore}
    (hstart : start folder options d = (.ok store, d')) (hd : A.Honest d)
    (hapart : ∀ c c', c ≠ c' → A.Apart (store.pathOf c) (store.pathOf c'))
    (hwhole : ∀ c, options.pageSize ∣ (A.bytes d (store.pathOf c)).length)
    (hevents : ∀ e ∈ events, e.Steady A) :
    (∀ e : PinEvent δ, e.Steady A → ¬ e.IsFlush →
      A.bytes (e.step (afterAll events ⟨d', store⟩)).device
        = A.bytes (afterAll events ⟨d', store⟩).device) ∧
    ∀ o, Ends (flushIn o) (afterAll events ⟨d', store⟩)
      (fun _ s => s.array A = (afterAll events ⟨d', store⟩).array A ∧
        (∀ c ∈ s.store.caches, ∀ i, i < (s.array A c).count →
          Bytes.pageAt (s.file A c) s.size i = (s.array A c).page i) ∧
        (∀ c i, i ∈ (s.array A c).freed → (s.array A c).page i = .zeros s.size ∨
          Stale A events ⟨d', store⟩ c i) ∧
        ∀ later : List (PinEvent δ), (∀ e ∈ later, e.Steady A ∧ ¬ e.IsFlush) →
          ∀ (own : Set String) (V : A.Service folder own), (∀ c ∈ s.store.caches, s.store.pathOf c ∈ own) →
          ∀ d'', A.Stays (afterAll later s).device d'' → V.Ready d'' →
          ∀ createIfMissing, s.Found A { options with createIfMissing }
            (fun c => A.bytes d (store.pathOf c)) d'')
      (fun e s => e.IsIo ∧ s.array A = (afterAll events ⟨d', store⟩).array A) := by
  obtain ⟨hcheck, hstore, -⟩ := store_of_start hstart
  have hstarted := fun c => start_backed (A := A) (c := c) hstart hd
    (fun c' hc => hapart c' c hc) (hwhole c)
  set s₀ : Session δ := ⟨d', store⟩ with hs₀
  have hsize₀ : s₀.size = options.pageSize := by rw [Session.size, hs₀, hstore]
  have hfile₀ : ∀ c, s₀.file A c = A.bytes d (store.pathOf c) := fun c => by
    rw [file, (hstarted c).2.1.bytes]
  -- Before the flush: every cache goes with its file, which has only grown at its end.
  have hleads := afterAll_leads (fun c => (hstarted c).1) hevents
  set s₁ := afterAll events s₀ with hs₁
  refine ⟨fun e he hflush => (step_leads hleads.backed he).2 hflush, fun o => ?_⟩
  refine (flushIn_saves (C := Set.univ) (fun c _ => hleads.backed c) (fun _ _ => trivial)
    (hleads.backed 0).honest o).mono ?_ fun e s h => ⟨h.1, funext fun c => h.2.array c trivial⟩
  -- After it: the same arrays, and nothing left to write.
  rintro - s ⟨hsaves, hclean⟩
  have hleads' := hleads.trans hsaves.leads
  have hgrows : ∀ c, Grows s.size (A.bytes d (store.pathOf c)) (s.file A c) := fun c => by
    rw [← hfile₀, hleads'.size]
    exact hleads'.grows c
  refine ⟨funext fun c => hsaves.array c trivial, fun c hc i _ => ?_, fun c i hi => ?_, ?_⟩
  · exact ((ofFile_of_clean (hleads'.backed c) (hclean c) hc (hgrows c)).2.1 i).symm
  · rw [hsaves.array c trivial] at hi ⊢
    rw [hleads'.size]
    refine (afterAll_spent (fun c => (hstarted c).1) hevents (i := i) ?_).imp_left fun h => (h hi).2.2
    rw [(hstarted c).2.2, hsize₀]
    exact PageArray.spent_ofFile _ _ _
  · -- what comes later stays in memory, so the files are still those of the flush
    intro later hlater own V hown d'' hd'' hready createIfMissing
    have hleads₂ := afterAll_leads hleads'.backed fun e he => (hlater e he).1
    have hbytes := afterAll_files hleads'.backed hlater
    have hstays : A.Stays s.device d'' :=
      Device.Files.Stays.trans ⟨(hleads₂.backed 0).honest, hbytes, hleads₂.present⟩ hd''
    have hfolder : s.store.folder = folder := hleads'.folder.trans (by rw [hs₀, hstore])
    have hcheck' : ({ options with createIfMissing } : Options).check = .ok () := hcheck
    exact found_of_clean hleads'.backed hclean hfolder hown hcheck'
      (hsize₀.symm.trans hleads'.size.symm) hstays hready hgrows

/-! ### A flush that is broken off -/

/-- A flush of a single page is refused where the page cannot be written. -/
lemma flushIn_refused {path : String} {f : Frame} {io : IoError} {d' : δ}
    (hpages : pagesInMemory s.store.caches.toList = [(c, path, i)])
    (hf : (s.store.caches[c]?).bind (·.frames[i]?) = some f) (hdirty : f.dirty = true)
    (hwrite : Device.writeExact path (i * s.size) f.bytes s.device = (.error io, d')) :
    flushIn .ascending s = (.error (.error (.io io)), ⟨d', s.store⟩) := by
  have hperform : perform (Device.writeExact path (i * s.size) f.bytes) s
      = (.error (.error (.io io)), ⟨d', s.store⟩) := by
    have hattempt : attempt (Device.writeExact path (i * s.size) f.bytes) s
        = (.ok (.error io), ⟨d', s.store⟩) := by rw [attempt, hwrite]
    exact (run_bind_ok hattempt _).trans rfl
  have hpage : writePage c path i s = (.error (.error (.io io)), ⟨d', s.store⟩) := by
    rw [writePage, run_bind_ok (run_get s)]
    simp only [hf, hdirty, if_true]
    exact (run_bind_ok (show pageSize s = (.ok s.size, s) from rfl) _).trans (run_bind_error hperform _)
  rw [flushIn, run_bind_ok (run_get s)]
  simp only [Schedule.ascending, id_eq, hpages]
  exact run_bind_error (run_bind_error hpage _) _

/-- A flush of a single page is broken off inside the page. What has been written then is the
beginning of the page, over what stood there. -/
lemma flushIn_torn {s : Session (Hampered δ)} {f : Frame} {n : ℕ} {e : IoError} {inner : δ}
    (hs : s.Backed (Hampered.account A) c)
    (hpages : pagesInMemory s.store.caches.toList = [(c, s.store.pathOf c, i)])
    (hf : (s.store.caches[c]?).bind (·.frames[i]?) = some f) (hdirty : f.dirty = true)
    (hhitches : s.device.hitches = [.short n, .refused e]) (he : e.kind ≠ .interrupted)
    (hpos : 0 < n) (hn : n < f.bytes.size)
    (hwrite : Device.writeAt (s.store.pathOf c) (i * s.size) (f.bytes.extract 0 n) s.device.inner
      = (.ok n, inner)) :
    flushIn .ascending s = (.error (.error (.io e)), ⟨⟨inner, []⟩, s.store⟩) ∧
      (⟨⟨inner, []⟩, s.store⟩ : Session (Hampered δ)).file (Hampered.account A) c
        = (s.file (Hampered.account A) c).overwrite (i * s.size) (f.bytes.data.toList.take n) := by
  obtain ⟨⟨before, hitches⟩, store⟩ := s
  obtain rfl : hitches = _ := hhitches
  obtain ⟨k, hk, -⟩ := Option.bind_eq_some_iff.mp hf
  obtain ⟨-, hwrites⟩ := (A.writeAt_extract _ hn.le hs.honest (hs.present hk)).ok hwrite
  exact ⟨flushIn_refused hpages hf hdirty (Hampered.writeExact_torn hpos hn he hwrite), hwrites.written⟩

/-- A flush is an event. -/
lemma step_flush (o : Schedule) (s : Session δ) :
    PinEvent.step (.event (.call (.flush o))) s = (flushIn o s).2 := by
  change (((fun _ => PageAnswer.done) <$> flushIn o) s).2 = _
  rcases hrun : flushIn o s with ⟨e | ⟨⟩, s'⟩
  · rw [run_map_error hrun]
  · rw [run_map_ok hrun]

/-- A page full of sevens. -/
def sevens (p : Page) : Page := ⟨Array.replicate p.size 7⟩

/-- The small store on a device whose calls may meet hitches. -/
def hampered : Session (Hampered (Faulty MemoryDisk)) := ⟨⟨guarded.device, []⟩, guarded.store⟩

/-- A new page is written, and the next write will be broken off behind its first three bytes. -/
def begun : List (PinEvent (Hampered (Faulty MemoryDisk))) :=
  [.event (.call (.allocate 1 0 .index)),
    .event (.call (.write 1 (.make 0 .index 1) sevens fun _ => Array.size_replicate)),
    .event (.turn fun d => ⟨d.inner, [.short 3, .refused (.stated .other "no space")]⟩)]

/-- The files behind the hitches. -/
abbrev hamperedFiles : Device.Account (Hampered (Faulty MemoryDisk)) :=
  Hampered.account (Faulty.account MemoryDisk.account)

/-- A device that meets no hitches and has no faults serves the store. -/
abbrev hamperedService : hamperedFiles.Service "store" .univ :=
  Hampered.service (Faulty.service (MemoryDisk.service "store" .univ))

/-- What is done before the flush leaves the files and what is asked of them. -/
lemma begun_steady : ∀ e ∈ begun, e.Steady hamperedFiles := by
  rintro e he f rfl d hd
  simp only [begun, List.mem_cons, PinEvent.event.injEq, StoreEvent.turn.injEq, reduceCtorEq,
    List.not_mem_nil, or_false, false_or] at he
  subst he
  exact Hampered.stays_setHitches hd _

/-- A store is opened over a device that has no file yet. -/
lemma hampered_start :
    start "store" { pageSize := 512 } hampered.device = (.ok hampered.store, hampered.device) := rfl

/-- The device tells no false sizes. -/
lemma hampered_honest : hamperedFiles.Honest hampered.device := ⟨trivial, rfl⟩

/-- The device has no file at first. -/
lemma hampered_file (path : String) : hamperedFiles.bytes hampered.device path = [] := guarded_file path

/-- The caches of the store go with their files. -/
lemma hampered_backed (c : CacheId) : hampered.Backed hamperedFiles c := by
  refine (start_backed hampered_start hampered_honest
    (fun c' hc heq => hc (PageStore.canonical_pathOf_injective _ heq)) ?_).1
  exact (congrArg List.length (hampered_file _)).symm ▸ dvd_zero _

/-- The flush is broken off inside the page. -/
lemma flushIn_begun : ∃ e s, flushIn .ascending (afterAll begun hampered) = (.error e, s) ∧
    hamperedService.Ready s.device ∧ s.store = (afterAll begun hampered).store ∧
    s.file hamperedFiles 1 = List.replicate 512 0 ++ List.replicate 3 7 := by
  have hpages : pagesInMemory (afterAll begun hampered).store.caches.toList
      = [(1, hampered.store.pathOf 1, 1)] := by decide +kernel
  have hframe : (((afterAll begun hampered).store.caches[(1 : CacheId)]?).bind (·.frames[1]?)).map
      (fun f => (f.dirty, f.bytes.data.toList)) = some (true, List.replicate 512 7) := by decide +kernel
  have hsize : (afterAll begun hampered).size = 512 := by decide +kernel
  have hhitches : (afterAll begun hampered).device.hitches
      = [.short 3, .refused (.stated .other "no space")] := rfl
  have hsound : (afterAll begun hampered).device.inner.faults = {} ∧
      (afterAll begun hampered).device.inner.capacity = none := by decide +kernel
  have hbacked := (afterAll_leads hampered_backed begun_steady).backed 1
  have hfolder : (afterAll begun hampered).store.folder = "store" := by decide +kernel
  have hbytes : hamperedFiles.bytes (afterAll begun hampered).device = fun _ => [] := by
    refine (afterAll_files hampered_backed fun e he => ⟨begun_steady e he, ?_⟩).trans
      (funext hampered_file)
    rintro ⟨o, rfl⟩
    simp [begun] at he
  generalize afterAll begun hampered = s₁ at *
  obtain ⟨f, hf, hfields⟩ := Option.map_eq_some_iff.mp hframe
  obtain ⟨hdirty, hsevens⟩ := Prod.mk.inj hfields
  have hpath : s₁.store.pathOf 1 = hampered.store.pathOf 1 := by
    rw [PageStore.pathOf, hfolder]
    rfl
  rw [← hpath] at hpages
  -- three bytes are written before the next call is refused
  have hlen : f.bytes.size = 512 := by
    rw [← ByteArray.size_data, ← Array.length_toList, hsevens, List.length_replicate]
  have hpart : (f.bytes.extract 0 3).size = 3 := by rw [ByteArray.size_extract, hlen]; rfl
  obtain ⟨inner, hwrite⟩ : ∃ inner, Device.writeAt (s₁.store.pathOf 1) (1 * s₁.size)
      (f.bytes.extract 0 3) s₁.device.inner = (.ok (f.bytes.extract 0 3).size, inner) :=
    ⟨_, Faulty.writeAt_sound ⟨hsound.1, hsound.2⟩ _ _ _⟩
  obtain ⟨k, hk, -⟩ := Option.bind_eq_some_iff.mp hf
  have hready : inner.Sound ∧ True :=
    (((Faulty.service (MemoryDisk.service "store" .univ)).writeAt_serves _ _ _ s₁.device.inner
      ⟨⟨hsound.1, hsound.2⟩, trivial⟩ (hbacked.present hk) (by omega)).ok hwrite).1
  rw [hpart] at hwrite
  have hkind : (IoError.stated .other "no space").kind ≠ .interrupted := by decide
  obtain ⟨htorn, hfile⟩ := flushIn_torn hbacked hpages hf hdirty hhitches hkind (by decide) (by omega) hwrite
  have hnone : s₁.file hamperedFiles 1 = [] := congrFun hbytes _
  refine ⟨_, _, htorn, ⟨rfl, hready⟩, rfl, ?_⟩
  rw [hfile, hnone, hsize, hsevens]
  decide +kernel

/-- A flush is broken off inside a page. The next flush writes the page again, and a store that
is opened behind it finds the page, though another one was allocated in between. -/
theorem files_of_flush_again : ∃ e s,
    flushIn .ascending (afterAll begun hampered) = (.error e, s) ∧
    s.file hamperedFiles 1 = List.replicate 512 0 ++ List.replicate 3 7 ∧
    ∃ s', flushIn .ascending s = (.ok (), s') ∧
      Bytes.pageAt (s'.file hamperedFiles 1) s'.size 1 = sevens (.zeros 512) ∧
      ∃ store d', start "store" { pageSize := 512, createIfMissing := false }
          (⟨{ inner := (afterAll [.event (.call (.allocate 1 0 .index))] s').device.inner.inner }, []⟩ :
            Hampered (Faulty MemoryDisk)) = (.ok store, d') ∧
        Ends ([(1, PageId.make 0 .index 1)].mapM fun e => look e.1 e.2) ⟨d', store⟩
          (fun rs _ => rs = [(2, sevens (.zeros 512))]) (fun _ _ => False) := by
  have hwhole : ∀ c, 512 ∣ (hamperedFiles.bytes hampered.device (hampered.store.pathOf c)).length :=
    fun c => by rw [hampered_file]; exact dvd_zero _
  have hapart : ∀ c c', c ≠ c' →
      hamperedFiles.Apart (hampered.store.pathOf c) (hampered.store.pathOf c') :=
    fun c c' hc heq => hc (PageStore.canonical_pathOf_injective _ heq)
  obtain ⟨e, s, htorn, hready, hstore, hfile⟩ := flushIn_begun
  refine ⟨e, s, htorn, hfile, ?_⟩
  -- the broken flush has changed no page in memory
  have harray := (((files_of_flush hampered_start hampered_honest hapart hwhole begun_steady).2 .ascending).error
    htorn).2
  have hcount : (s.array hamperedFiles 1).count = 2 := by
    rw [harray]
    decide +kernel
  have hpage : (s.array hamperedFiles 1).page 1 = sevens (.zeros 512) := by
    rw [harray]
    exact ByteArray.ext (Array.ext' (by decide +kernel))
  have hkeys : s.store.caches.keys = [1] := by
    rw [hstore]
    decide +kernel
  -- the history goes on with the next flush
  set events := begun ++ [.event (.call (.flush .ascending))] with hevents
  have hsteady : ∀ e ∈ events, e.Steady hamperedFiles := by
    intro e he
    obtain he | he := List.mem_append.mp he
    · exact begun_steady e he
    · rintro f rfl
      cases List.mem_singleton.mp he
  have hafter : afterAll events hampered = s := by
    rw [hevents, afterAll_concat, step_flush, htorn]
  obtain ⟨-, hflush⟩ := files_of_flush hampered_start hampered_honest hapart hwhole hsteady
  have hleads := afterAll_leads hampered_backed hsteady
  rw [show (⟨hampered.device, hampered.store⟩ : Session (Hampered (Faulty MemoryDisk))) = hampered from rfl,
    hafter] at hflush
  rw [hafter] at hleads
  -- the device serves again, and is never full
  have hopened : ∀ c, c ∈ s.store.caches → c ∈ ({1} : Set CacheId) := fun c hc => by
    rwa [← Std.TreeMap.mem_keys, hkeys, List.mem_singleton] at hc
  obtain ⟨s', hrun⟩ := flushIn_of_room (V := hamperedService) (C := {1}) (fun c _ => hleads.backed c) hopened
    (hleads.backed 1).honest hready (fun _ => trivial) .ascending
  obtain ⟨harray', hfiles, -, hlater⟩ := (hflush .ascending).ok hrun
  obtain ⟨hsaves, -⟩ := (flushIn_saves (C := Set.univ) (fun c _ => hleads.backed c) (fun _ _ => trivial)
    (hleads.backed 1).honest .ascending).ok hrun
  have hopen : 1 ∈ s'.store.caches := by
    rw [hsaves.opened, ← Std.TreeMap.mem_keys, hkeys]
    exact List.mem_singleton_self 1
  rw [← harray'] at hcount hpage
  have hallocate : ∀ e ∈ ([.event (.call (.allocate 1 0 .index))] : List (PinEvent (Hampered (Faulty MemoryDisk)))),
      e.Steady hamperedFiles ∧ ¬ e.IsFlush := by
    intro e he
    obtain rfl := List.mem_singleton.mp he
    exact ⟨fun _ hf => (nomatch hf), fun ⟨_, ho⟩ => nomatch ho⟩
  have hleads' := hleads.trans hsaves.leads
  obtain ⟨store, d', hstart, hlooks⟩ := hlater _ hallocate .univ hamperedService (fun _ _ => trivial)
    ⟨{ inner := _ }, []⟩ ⟨⟨trivial, rfl⟩, rfl, fun h => h⟩ ⟨rfl, ⟨rfl, rfl⟩, trivial⟩ false
  have hcounted : recount (hamperedFiles.bytes hampered.device (hampered.store.pathOf 1)) s'.size
      (s'.array hamperedFiles 1) = 2 := by
    have hpos := (hleads'.backed 1).size_pos
    rw [hampered_file, recount, if_pos (by simpa using hpos), hcount]
  have hindex : (PageId.make 0 .index 1).index = 1 := by decide
  rw [hleads'.folder] at hstart
  refine ⟨s', hrun, (hfiles 1 hopen 1 (by omega)).trans hpage, store, d', hstart,
    (hlooks [(1, .make 0 .index 1)] fun e he => ?_).mono_ok ?_⟩
  · obtain rfl := List.mem_singleton.mp he
    exact ⟨hopen, by rw [hcounted, hindex]; omega⟩
  · rintro rs - rfl
    rw [List.map_singleton, hcounted, hindex, hpage]

end Session

end PageCatalog
