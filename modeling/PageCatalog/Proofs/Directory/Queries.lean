import Mathlib.Tactic
import PageCatalog.Proofs.Directory.Counting
import PageCatalog.Proofs.Directory.History

/-!
Questions to a store.

Looking up, listing and counting change nothing, and neither do the calls of a directory that
find nothing to do: it is taken over where it is there already, a name is obtained that is
registered, another one is dropped that is not. After any number of these, a flush has nothing
to write that the flush before them has not written.

* `SessionEvent.Steady`, `Session.Reached`, `Reached.backed`: the states that a store comes to.
* `Directory.Made`, `Directory.Registered`, `Directory.Unregistered`: what a directory finds;
  `Registers.finds`, by a register.
* `Session.Question`, `Question.acts`: the questions, each of which only asks in its state.
* `Session.Asked`: questions one after the other; `Asked.flush_writes`: no write is counted.
* `Session.unchanged_of_asked`: nothing has changed, in memory and in files.
-/

namespace PageCatalog

/-! ### The states of a store -/

namespace SessionEvent

variable {δ : Type} [Device δ] {A : Device.Account δ} {s : Session δ}

/-- What becomes of the device by itself leaves its files as they are. -/
def Steady (A : Device.Account δ) (events : List (SessionEvent δ)) : Prop :=
  ∀ f, .turn f ∈ events → ∀ d, A.Honest d → A.Stays d (f d)

/-- A session goes on to go with its files. -/
lemma step_backed (hs : ∀ c, s.Backed A c) (event : SessionEvent δ)
    (hevent : ∀ f, event = .turn f → ∀ d, A.Honest d → A.Stays d (f d)) (c : CacheId) :
    (event.step s).Backed A c := by
  cases event with
  | on c' m h =>
      refine h.rec_within (P := fun m => (m s).2.Backed A c) (fun {_ m} hm => ?_) fun i f hf => ?_
      · by_cases hc : c = c'
        · subst hc
          obtain ⟨a, hturns, -⟩ := hm.runs (hs c)
          exact hturns.backed
        · exact ((hm.minds (hs c').honest).same hc).backed (hs c)
      · rw [Session.rewrite_run]
        split
        · rename_i g hg
          obtain ⟨k, hk, hframe⟩ := Option.bind_eq_some_iff.mp hg
          exact PageCall.turns_backed hs (Session.withFrame_turns (hs c') hk hframe
            ((hf _).trans (((hs c').opened hk).frame_size hframe)) rfl) c
        · exact hs c
  | flush o =>
      have hsaves := Session.flushIn_saves (C := Set.univ) (fun c _ => hs c) (fun _ _ => Set.mem_univ _)
        (hs c).honest o
      exact (hsaves.mono (fun _ _ h => h.1.backed c (Set.mem_univ c))
        fun _ _ h => h.2.backed c (Set.mem_univ c)).result (P := fun _ s' => Session.Backed A c s')
  | turn f =>
      have hasks : s.Asks A { s with device := f s.device } := ⟨rfl, hevent f rfl _ (hs c).honest⟩
      exact (hasks.same c).backed (hs c)

lemma after_backed (hs : ∀ c, s.Backed A c) {events : List (SessionEvent δ)} (hevents : Steady A events)
    (c : CacheId) : (after events s).Backed A c := by
  induction events generalizing s with
  | nil => exact hs c
  | cons event rest ih =>
      exact ih (step_backed hs event fun f hf => hevents f (hf ▸ List.mem_cons_self))
        fun f hf => hevents f (List.mem_cons_of_mem _ hf)

end SessionEvent

namespace Session

variable {δ : Type} [Device δ]

/-- A store was opened over files that are cut into whole pages, and then anything has happened
to it, while its device gave no false sizes. -/
def Reached (A : Device.Account δ) (s : Session δ) : Prop :=
  ∃ (folder : String) (options : Options) (d d' : δ) (store : PageStore) (events : List (SessionEvent δ)),
    start folder options d = (.ok store, d') ∧ A.Honest d ∧
    (∀ c c', c ≠ c' → A.Apart (store.pathOf c) (store.pathOf c')) ∧
    (∀ c, options.pageSize ∣ (A.bytes d (store.pathOf c)).length) ∧
    SessionEvent.Steady A events ∧ s = SessionEvent.after events ⟨d', store⟩

variable {A : Device.Account δ} {s : Session δ}

lemma Reached.backed (h : s.Reached A) (c : CacheId) : s.Backed A c := by
  obtain ⟨folder, options, d, d', store, events, hstart, hd, hapart, hwhole, hevents, rfl⟩ := h
  exact SessionEvent.after_backed
    (fun c => (start_backed hstart hd (fun c' hc => hapart c' c hc) (hwhole c)).1) hevents c

end Session

/-! ### What a directory finds -/

namespace Directory

variable {δ : Type} [Device δ] (d : Directory) (name : String) (s : Session δ)

/-- The meta page does not say that there is no directory yet. -/
def Made : Prop := ∀ root s', d.tree.root s = (.ok root, s') → root.word ≠ 0

/-- A lookup does not say that the name is not there. -/
def Registered : Prop := ∀ s', d.tree.find? (searchKey name) s ≠ (.ok none, s')

/-- A lookup does not say that the name is there. -/
def Unregistered : Prop := ∀ e s', d.tree.find? (searchKey name) s ≠ (.ok (some e), s')

variable {d name s}

lemma Registers.quiet {B : Backing δ} {register : String → Option PageId} {returned : List PageId}
    {s' : Session δ} (h : d.Registers B s register returned) (hquiet : s.Quiet B d.cache s') :
    d.Registers B s' register returned :=
  h.imp fun _ h => ⟨h.1.quiet hquiet, h.2⟩

/-- A directory that holds a register is there, and its names are those of the register. -/
lemma Registers.finds {B : Backing δ} {register : String → Option PageId} {returned : List PageId}
    (h : d.Registers B s register returned) (name : String) :
    d.Made s ∧ (register name ≠ none → d.Registered name s) ∧
      (register name = none → d.Unregistered name s) := by
  obtain ⟨D, hheld, hlists, -⟩ := h
  have hfind := hheld.holds.find_ends d.tree_lawful hheld.tidy.ordered (searchKey name)
  have hlookup := hlists.lookup name
  refine ⟨fun root s' hroot => ?_, fun hname s' hrun => ?_, fun hname e s' hrun => ?_⟩
  · obtain ⟨rfl, -⟩ := hheld.holds.root_ends.ok hroot
    exact hheld.holds.word_ne_zero
  · rw [← (hfind.ok hrun).1] at hlookup
    exact hname hlookup.symm
  · rw [← (hfind.ok hrun).1, hname] at hlookup
    cases hlookup

end Directory

namespace Session

variable {δ α : Type} [Device δ]

/-- The questions to a store in a state of it: those to pages and trees, and the calls of a
directory that find nothing to do. -/
inductive Question (s : Session δ) : {α : Type} → SessionM δ α → Prop
  | pageCount (c : CacheId) : Question s (pageCount c)
  | freedCount (c : CacheId) : Question s (freedCount c)
  | view {α : Type} (c : CacheId) (id : PageId) (f : Page → Except Failure α) : Question s (view c id f)
  | level {ρ : Type} (t : Tree ρ) : Question s t.level
  | find {ρ : Type} (t : Tree ρ) (row : ρ) : Question s (t.find? row)
  | walk {ρ β : Type} (t : Tree ρ) (visit : β → ρ → Except Error β) (b : β) (depth : ℕ) :
      Question s (t.walk visit b depth)
  | list {ρ : Type} (t : Tree ρ) : Question s t.toList
  | count {ρ : Type} (t : Tree ρ) : Question s t.size
  | scan {ρ : Type} (t : Tree ρ) (limit : ℕ) : Question s (t.scan limit)
  | entries (d : Directory) : Question s d.entries
  | names (d : Directory) : Question s d.names
  | size (d : Directory) : Question s d.size
  | isEmpty (d : Directory) : Question s d.isEmpty
  | directoryLevel (d : Directory) : Question s d.level
  | start (c : CacheId) (h : (⟨c⟩ : Directory).Made s) : Question s (Directory.start c)
  | obtain (d : Directory) (name : String)
      (h : Entry.longestName < (Directory.encode name).length ∨ d.Registered name s) :
      Question s (d.obtain name)
  | drop (d : Directory) (name : String)
      (h : Entry.longestName < (Directory.encode name).length ∨ d.Unregistered name s) :
      Question s (d.drop name)

variable {s s' : Session δ} {m : SessionM δ α}

/-- A directory that is there is only looked at. -/
lemma start_reads {c : CacheId} (h : (⟨c⟩ : Directory).Made s) :
    ∃ m : SessionM δ Directory, Reads c m ∧ Directory.start c s = m s := by
  refine ⟨(⟨c⟩ : Directory).tree.root >>= fun _ => (⟨c⟩ : Directory).tree.recover >>= fun _ => pure ⟨c⟩,
    (Tree.root_reads (⟨c⟩ : Directory).tree).bind fun _ =>
      (Tree.recover_reads (⟨c⟩ : Directory).tree).bind fun _ => .pure _, ?_⟩
  rw [Directory.start, Tree.start, bind_assoc]
  refine run_bind_congr fun root s' hroot => ?_
  rw [if_neg]
  simpa using h root s' hroot

/-- A name that is registered is looked up. -/
lemma obtain_reads {d : Directory} {name : String}
    (h : Entry.longestName < (Directory.encode name).length ∨ d.Registered name s) :
    ∃ m : SessionM δ RootPage, Reads d.cache m ∧ d.obtain name s = m s := by
  by_cases hlong : Entry.longestName < (Directory.encode name).length
  · refine ⟨_, .throw (.error (.nameTooLong Entry.longestName (Directory.encode name).length name)), ?_⟩
    rw [Directory.obtain, if_pos hlong]
    rfl
  · have hregistered := h.resolve_left hlong
    refine ⟨d.tree.find? (Directory.searchKey name) >>= fun found =>
        settle (found.elim (.error .endless) fun e => .ok (d.rootPage e.page false)),
      (d.tree.find?_reads _).bind fun _ => .settle _, ?_⟩
    rw [Directory.obtain, if_neg hlong]
    refine run_bind_congr fun found s' hfound => ?_
    cases found with
    | none => exact absurd hfound (hregistered s')
    | some e => rfl

/-- A name that is not registered is looked up. -/
lemma drop_reads {d : Directory} {name : String}
    (h : Entry.longestName < (Directory.encode name).length ∨ d.Unregistered name s) :
    ∃ m : SessionM δ (Option RootPage), Reads d.cache m ∧ d.drop name s = m s := by
  by_cases hlong : Entry.longestName < (Directory.encode name).length
  · exact ⟨_, .pure none, by rw [Directory.drop, if_pos hlong]⟩
  · have hunregistered := h.resolve_left hlong
    refine ⟨d.tree.find? (Directory.searchKey name) >>= fun found =>
        settle (found.elim (.ok none) fun _ => .error .endless),
      (d.tree.find?_reads _).bind fun _ => .settle _, ?_⟩
    rw [Directory.drop, if_neg hlong]
    refine run_bind_congr fun found s' hfound => ?_
    cases found with
    | none => rfl
    | some e => exact absurd hfound (hunregistered e s')

/-- In its state a question only asks for pages of a cache. -/
theorem Question.acts (h : Question s m) : ∃ (c : CacheId) (m' : SessionM δ α), Reads c m' ∧ m s = m' s := by
  cases h with
  | pageCount c => exact ⟨c, _, .pageCount, rfl⟩
  | freedCount c => exact ⟨c, _, .freedCount, rfl⟩
  | view c id f => exact ⟨c, _, .view id f, rfl⟩
  | level t => exact ⟨_, _, t.level_reads, rfl⟩
  | find t row => exact ⟨_, _, t.find?_reads row, rfl⟩
  | walk t visit b depth => exact ⟨_, _, t.walk_reads visit b depth, rfl⟩
  | list t => exact ⟨_, _, t.toList_reads, rfl⟩
  | count t => exact ⟨_, _, t.size_reads, rfl⟩
  | scan t limit => exact ⟨_, _, t.scan_reads limit, rfl⟩
  | entries d => exact ⟨_, _, d.tree.toList_reads, rfl⟩
  | names d => exact ⟨_, _, d.tree.toList_reads.bind fun _ => .pure _, rfl⟩
  | size d => exact ⟨_, _, d.tree.size_reads, rfl⟩
  | isEmpty d => exact ⟨_, _, d.tree.size_reads.bind fun _ => .pure _, rfl⟩
  | directoryLevel d => exact ⟨_, _, d.tree.level_reads, rfl⟩
  | start c h => exact ⟨c, start_reads h⟩
  | obtain d name h => exact ⟨_, obtain_reads h⟩
  | drop d name h => exact ⟨_, drop_reads h⟩

/-! ### One question after another -/

/-- Questions have led from one state to another. -/
inductive Asked : Session δ → Session δ → Prop
  | refl (s : Session δ) : Asked s s
  | ask {α : Type} {s s' : Session δ} {m : SessionM δ α} (h : Question s m) (hrest : Asked (m s).2 s') :
      Asked s s'

/-- No page in memory has changed, and none has come into it that would have to be written. -/
lemma Asked.rests (h : Asked s s') : s.Rests s' := by
  induction h with
  | refl s => exact rests_of_store rfl
  | @ask _ s s' m hquestion _ ih =>
      obtain ⟨c, m', hreads, hrun⟩ := hquestion.acts
      have hrests := hreads.rests s
      rw [← hrun] at hrests
      exact hrests.trans ih

/-- The device was not asked to write. -/
lemma Asked.unwriting (h : Asked s s') {P : δ → Prop} (hP : Device.Unwriting P) (hs : P s.device) :
    P s'.device := by
  induction h with
  | refl s => exact hs
  | @ask _ s s' m hquestion _ ih =>
      obtain ⟨c, m', hreads, hrun⟩ := hquestion.acts
      have hfirst := hreads.unwriting hP hs
      rw [← hrun] at hfirst
      exact ih hfirst

/-- All caches are the arrays that they were. -/
lemma Asked.arrays {A : Device.Account δ} (h : Asked s s') (hs : ∀ c, s.Backed A c) :
    s'.array A = s.array A ∧ ∀ c, s'.Backed A c := by
  induction h with
  | refl s => exact ⟨rfl, hs⟩
  | @ask _ s s' m hquestion _ ih =>
      obtain ⟨c, m', hreads, hrun⟩ := hquestion.acts
      have hturns := hreads.turns (hs c)
      rw [← hrun] at hturns
      obtain ⟨harray, hbacked⟩ := ih (PageCall.turns_backed hs hturns)
      exact ⟨by rw [harray, PageCall.turns_arrays hturns, Function.update_eq_self], hbacked⟩

/-- Behind a whole flush and some questions, the next flush has nothing to write. -/
lemma Asked.flush_unwriting (h : Asked s s') {o : Schedule} {before : Session δ}
    (hflush : flushIn o before = (.ok (), s)) (o' : Schedule) {P : δ → Prop} (hP : Device.Unwriting P)
    (hs : P s.device) : P (flushIn o' s').2.device :=
  flushIn_unwriting (fun c i => h.rests.clean ((flushIn_clean o before).ok hflush c i)) o' hP
    (h.unwriting hP hs)

/-- A device that counts its calls counts no write then. -/
theorem Asked.flush_writes {s s' : Session (Faulty δ)} (h : Asked s s') {o : Schedule}
    {before : Session (Faulty δ)} (hflush : flushIn o before = (.ok (), s)) (o' : Schedule) :
    (flushIn o' s').2.device.counts.writes = s.device.counts.writes :=
  h.flush_unwriting hflush o' (Faulty.unwriting _) rfl

/-- Questions change nothing. Whatever is in memory stays as it is, an open cache has as many
pages as before, and a page that comes into memory neither has to be written nor is it freed. If
the device gives no false sizes, every cache is the array of pages that it was, and the files are
the same. If the questions come behind a flush that was whole, then the next flush, in whatever
order, does not ask the device to write anything, and no file changes. -/
theorem unchanged_of_asked (h : Asked s s') :
    s.Rests s' ∧
      (∀ A : Device.Account δ, s.Reached A →
        s'.array A = s.array A ∧ A.bytes s'.device = A.bytes s.device) ∧
      ∀ (o : Schedule) (before : Session δ), flushIn o before = (.ok (), s) → ∀ o',
        (∀ P, Device.Unwriting P → P s.device → P (flushIn o' s').2.device) ∧
        ∀ A : Device.Account δ, s.Reached A →
          A.bytes (flushIn o' s').2.device = A.bytes s.device := by
  refine ⟨h.rests, fun A hreached => ⟨(h.arrays hreached.backed).1, ?_⟩, fun o before hflush o' =>
    ⟨fun P hP hs => h.flush_unwriting hflush o' hP hs, fun A hreached => ?_⟩⟩
  · exact (h.unwriting (A.unwriting _) ⟨(hreached.backed 0).honest, rfl⟩).2
  · exact (h.flush_unwriting hflush o' (A.unwriting _) ⟨(hreached.backed 0).honest, rfl⟩).2

/-- A new directory is flushed after a name was obtained. The name is obtained again, and the next
flush leaves the files as they are. -/
theorem unchanged_of_obtain_again :
    ∃ s : Session MemoryDisk, (∃ before, flushIn .ascending before = (.ok (), s)) ∧
      MemoryDisk.account.bytes (flushIn .ascending ((⟨1⟩ : Directory).obtain "a" s).2).2.device
        = MemoryDisk.account.bytes s.device := by
  -- the session is hidden, so that nothing evaluates it again
  obtain ⟨s₀, hs₀, hstart, hsound⟩ : ∃ s₀ : Session MemoryDisk, s₀ = (Directory.start 1 .blank).2 ∧
      Directory.start 1 .blank = (.ok ⟨1⟩, s₀) ∧
      ((DirectoryCall.obtain "a").step ⟨1⟩ s₀).1.isOk = true := by
    obtain ⟨⟨⟩, hmade⟩ := run_of_isOk (show ((⟨1⟩ : Directory).tree.start none .blank).1.isOk = true by
      decide +kernel)
    refine ⟨_, rfl, ?_, by decide +kernel⟩
    rw [Directory.start, run_bind_ok hmade]
    rfl
  set s₁ := ((DirectoryCall.obtain "a").step ⟨1⟩ s₀).2 with hs₁
  have hreached : ∀ rest : List (SessionEvent MemoryDisk), (∀ f, .turn f ∉ rest) →
      (SessionEvent.after rest s₁).Reached MemoryDisk.account := fun rest hrest => by
    refine ⟨_, _, _, _, _, .on 1 (Directory.start 1) .start ::
      .on 1 ((DirectoryCall.obtain "a").step ⟨1⟩) (.call rfl _) :: rest, blank_start, trivial,
      fun c c' hc heq => hc (PageStore.canonical_pathOf_injective _ heq), fun c => ?_, fun f hf => ?_, ?_⟩
    · exact (congrArg List.length (blank_file _)).symm ▸ dvd_zero _
    · simp [hrest f] at hf
    · rw [hs₁, hs₀]
      rfl
  obtain ⟨s, hflush⟩ := flushIn_memoryDisk (C := Set.univ)
    (fun c _ => (hreached [] (by simp)).backed c) (fun _ _ => Set.mem_univ _) .ascending
  -- the name is registered before the flush, and so it is afterwards
  obtain ⟨-, hregisters⟩ :=
    Directory.registers_of_start Session.blank_start ⟨⟨0⟩, by decide +kernel, rfl⟩ hstart
  obtain htrouble | ⟨hagrees, hregisters₁⟩ := DirectoryCall.step_agrees hregisters (.obtain "a")
  · exact absurd htrouble (DirectoryAnswer.not_troubled hsound)
  rw [DirectoryCall.Agrees, if_neg (by decide +kernel)] at hagrees
  obtain ⟨page, hpage, -⟩ := hagrees
  have hquiet := flush_quiet 1 s₁
  rw [flush_eq_flushIn] at hquiet
  have hfinds := (hregisters₁.quiet (hquiet.ok hflush)).finds "a"
  have hasked : Asked s ((⟨1⟩ : Directory).obtain "a" s).2 :=
    .ask (.obtain _ "a" (.inr (hfinds.2.1 (by simp [DirectoryCall.update, hpage])))) (.refl _)
  refine ⟨s, ⟨s₁, hflush⟩, ((unchanged_of_asked hasked).2.2 .ascending s₁ hflush .ascending).2 _ ?_⟩
  have hs : s = SessionEvent.after [.flush .ascending] s₁ := (congrArg Prod.snd hflush).symm
  exact hs ▸ hreached [.flush .ascending] (by simp)

end Session

end PageCatalog
