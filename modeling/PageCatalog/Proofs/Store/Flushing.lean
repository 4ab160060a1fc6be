import Mathlib.Tactic
import PageCatalog.Proofs.Store.Arrays

/-!
Writing the pages of a session to its files.

A flush may go through pages and files in any order. Wherever it is broken off, even inside
a page, all caches are the arrays they were, and what has not reached its file wholly still
has to be written. A flush that is not broken off leaves no such page.

* `Schedule`, `Session.flushIn`: a flush in some order; `Session.flush_eq_flushIn`.
* `Session.Saves`: some pages have been written, or parts of pages.
* `Session.writePage_saves`: one page.
* `Session.flushIn_saves`: a whole flush.
-/

namespace PageCatalog

/-- Orders in which a flush goes through the pages in memory and through the files. -/
structure Schedule where
  pages : List (CacheId × String × ℕ) → List (CacheId × String × ℕ)
  pages_perm : ∀ l, (pages l).Perm l
  files : List String → List String
  files_perm : ∀ l, (files l).Perm l

/-- Pages and files in ascending order, as tables list them. -/
def Schedule.ascending : Schedule where
  pages := id
  pages_perm := .refl
  files := id
  files_perm := .refl

namespace Session

variable {δ : Type}

/-- A page in memory has been written, if it is there at all. -/
def Clean (s : Session δ) (c : CacheId) (i : ℕ) : Prop :=
  ∀ k f, s.store.caches[c]? = some k → k.frames[i]? = some f → f.dirty = false

variable [Device δ]

/-- Writes a page to its file if it has to be written. -/
def writePage (c : CacheId) (path : String) (i : ℕ) : SessionM δ Unit := do
  if let some f := ((← get).store.caches[c]?).bind (·.frames[i]?) then
    if f.dirty then
      perform (Device.writeExact path (i * (← pageSize)) f.bytes)
      putFrame c i { f with dirty := false }

/-- The pages in memory, each with its cache and the path of its file. -/
def pagesInMemory (caches : List (CacheId × CacheFile)) : List (CacheId × String × ℕ) :=
  caches.flatMap fun e => e.2.frames.keys.map fun i => (e.1, e.2.path, i)

/-- A flush in some order. -/
def flushIn (o : Schedule) : SessionM δ Unit := do
  let caches := (← get).store.caches.toList
  (o.pages (pagesInMemory caches)).forM fun e => writePage e.1 e.2.1 e.2.2
  (o.files (caches.map fun e => e.2.path)).forM fun path => perform (Device.sync path)

/-- The pages of one cache are written one after the other. -/
lemma writeBack_eq (c : CacheId) (path : String) (indexes : List ℕ) :
    writeBack (δ := δ) c path indexes = indexes.forM (writePage c path) := by
  induction indexes with
  | nil => rfl
  | cons i rest ih =>
      rw [writeBack, ih]
      simp only [List.forM_eq_forM]
      rw [List.forM_cons, writePage, bind_assoc]
      refine bind_congr fun s => ?_
      cases (s.store.caches[c]?).bind (·.frames[i]?) with
      | none => rfl
      | some f =>
          simp only
          split
          · simp only [bind_assoc]
          · rfl

/-- The program goes through pages and files in ascending order. -/
lemma flush_eq_flushIn : flush (δ := δ) = flushIn .ascending := by
  have hpages : ∀ caches : List (CacheId × CacheFile),
      (caches.forM fun e => writeBack (δ := δ) e.1 e.2.path e.2.frames.keys)
        = (pagesInMemory caches).forM fun e => writePage e.1 e.2.1 e.2.2 := by
    intro caches
    induction caches with
    | nil => rfl
    | cons e rest ih =>
        simp only [List.forM_eq_forM, pagesInMemory, List.flatMap_cons] at ih ⊢
        rw [List.forM_cons, ih, List.forM_append, List.forM_map, writeBack_eq, List.forM_eq_forM]
  have hfiles : ∀ caches : List (CacheId × CacheFile),
      (caches.forM fun e => perform (δ := δ) (Device.sync e.2.path))
        = (caches.map fun e => e.2.path).forM fun path => perform (Device.sync path) := by
    intro caches
    simp only [List.forM_eq_forM, List.forM_map]
  rw [flush, flushIn]
  refine bind_congr fun s => ?_
  exact congrArg₂ (fun m m' => m >>= fun _ => m') (hpages _) (hfiles _)

variable {A : Device.Account δ} {c c' : CacheId} {s s' s'' : Session δ} {i : ℕ} {k : CacheFile}
  {f : Frame} {C : Set CacheId}

/-! ### One page -/

/-- Some pages have reached their files, and perhaps a part of another one. The caches that
are looked at, all open ones among them, are the arrays they were. -/
structure Saves (A : Device.Account δ) (C : Set CacheId) (s s' : Session δ) : Prop where
  honest : A.Honest s'.device
  backed : ∀ c ∈ C, s'.Backed A c
  array : ∀ c ∈ C, s'.array A c = s.array A c
  folder : s'.store.folder = s.store.folder
  options : s'.store.options = s.store.options
  opened : ∀ c, c ∈ s'.store.caches ↔ c ∈ s.store.caches
  present : ∀ {path}, A.Present s.device path → A.Present s'.device path
  grows : ∀ c ∈ C, Grows s.size (s.file A c) (s'.file A c)
  clean : ∀ {c i}, s.Clean c i → s'.Clean c i

/-- Nothing was written. -/
lemma Saves.refl (hhonest : A.Honest s.device) (h : ∀ c ∈ C, s.Backed A c) : s.Saves A C s :=
  ⟨hhonest, h, fun _ _ => rfl, rfl, rfl, fun _ => .rfl, fun h => h, fun _ _ => .refl _ _, fun h => h⟩

/-- The page size is the same. -/
lemma Saves.size (h : s.Saves A C s') : s'.size = s.size := by rw [Session.size, h.options]

/-- What was written before and what was written then. -/
lemma Saves.trans (h : s.Saves A C s') (h' : s'.Saves A C s'') : s.Saves A C s'' :=
  ⟨h'.honest, h'.backed, fun c hc => (h'.array c hc).trans (h.array c hc), h'.folder.trans h.folder,
    h'.options.trans h.options, fun c => (h'.opened c).trans (h.opened c),
    fun hpath => h'.present (h.present hpath),
    fun c hc => (h.grows c hc).trans (h.size ▸ h'.grows c hc), fun hclean => h'.clean (h.clean hclean)⟩

/-- The caches have the paths that they had. -/
lemma Saves.pathOf (h : s.Saves A C s') (c : CacheId) : s'.store.pathOf c = s.store.pathOf c := by
  rw [PageStore.pathOf, h.folder, PageStore.pathOf]

/-- The file of one cache was written, and its frames show the same pages over it. -/
lemma saves_of_written (hs : ∀ c ∈ C, s.Backed A c) (hc : c ∈ C) {k' : CacheFile} (hk : s.store.caches[c]? = some k)
    (hk' : s'.store.caches[c]? = some k') (hfolder : s'.store.folder = s.store.folder)
    (hoptions : s'.store.options = s.store.options)
    (hothers : ∀ c' ≠ c, s'.store.caches[c']? = s.store.caches[c']?) {pos : ℕ} {bs : Bytes}
    (hwrites : A.Writes s.device (s.store.pathOf c) pos bs s'.device)
    (hend : pos + bs.length < 0x100000000 * s.size) (hpath : k'.path = k.path)
    (hbacked : k'.Backed ((s.file A c).overwrite pos bs) s.size)
    (harray : k'.array ((s.file A c).overwrite pos bs) s.size = k.array (s.file A c) s.size)
    (hclean : ∀ j, s.Clean c j → s'.Clean c j) : s.Saves A C s' := by
  have hpathOf : ∀ c, s'.store.pathOf c = s.store.pathOf c := fun c => by
    rw [PageStore.pathOf, hfolder, PageStore.pathOf]
  have hsize : s'.size = s.size := by rw [Session.size, hoptions]
  have hfile : s'.file A c = (s.file A c).overwrite pos bs := by
    rw [file, hpathOf, hwrites.written, file]
  -- The files of the other caches are apart from the one that was written.
  have hsame : ∀ c' ∈ C, c' ≠ c → s.Same A c' s' := fun c' hin hne =>
    ⟨hwrites.honest, hothers c' hne, hfolder, hoptions, by
      rw [file, hpathOf, hwrites.others _ ((hs c' hin).apart c hne.symm), file], hwrites.present⟩
  refine ⟨hwrites.honest, fun c' hin => ?_, fun c' hin => ?_, hfolder, hoptions, fun c' => ?_,
    hwrites.present, fun c' hin => ?_, fun {c' j} hj => ?_⟩
  · by_cases hc : c' = c
    · subst hc
      have hs' := hs c' hin
      refine ⟨hwrites.honest, hsize ▸ hs'.size_pos, fun c₁ hc₁ => ?_, fun hk₁ => ?_, fun hk₁ => ?_,
        fun _ => (hpathOf c').symm ▸ hwrites.present (hs'.present hk), fun hnone => ?_⟩
      · rw [hpathOf, hpathOf]
        exact hs'.apart c₁ hc₁
      · obtain rfl : k' = _ := Option.some.inj (hk'.symm.trans hk₁)
        rw [hpath, hpathOf]
        exact hs'.path hk
      · obtain rfl : k' = _ := Option.some.inj (hk'.symm.trans hk₁)
        rwa [hfile, hsize]
      · rw [hk'] at hnone
        cases hnone
    · exact (hsame c' hin hc).backed (hs c' hin)
  · by_cases hc : c' = c
    · subst hc
      rw [array_open hk', array_open hk, hfile, hsize, harray]
    · exact (hsame c' hin hc).array
  · rw [Std.TreeMap.mem_iff_isSome_getElem?, Std.TreeMap.mem_iff_isSome_getElem?]
    by_cases hc : c' = c
    · subst hc
      rw [hk, hk']
      exact .rfl
    · rw [hothers c' hc]
  · by_cases hc : c' = c
    · subst hc
      rw [hfile]
      exact grows_overwrite _ hend
    · rw [(hsame c' hin hc).file]
      exact .refl _ _
  · by_cases hc : c' = c
    · subst hc
      exact hclean j hj
    · intro k₁ f hk₁
      exact hj k₁ f ((hothers c' hc).symm.trans hk₁)

/-- What a write of a whole range leaves, and one that is broken off. -/
lemma perform_writes {path : String} (hs : A.Honest s.device) (hpath : A.Present s.device path)
    (pos : ℕ) (p : Page) :
    Ends (perform (Device.writeExact path pos p)) s
      (fun _ s' => s'.store = s.store ∧ A.Writes s.device path pos p.bytes s'.device)
      (fun e s' => e.IsIo ∧ s'.store = s.store ∧
        ∃ n, A.Writes s.device path pos (p.bytes.take n) s'.device) := by
  have hend := A.writeExact_ends path pos p hs hpath
  have hattempt : ∀ {r d'}, Device.writeExact path pos p s.device = (r, d') →
      attempt (Device.writeExact path pos p) s = (.ok r, ⟨d', s.store⟩) := fun {r d'} hrun => by
    rw [attempt, hrun]
  rcases hrun : Device.writeExact path pos p s.device with ⟨e | ⟨⟩, d'⟩
  · obtain ⟨n, -, hwrites⟩ := hend.error hrun
    exact Ends.bind_ok (hattempt hrun) (Ends.of_error rfl ⟨⟨e, rfl⟩, rfl, n, hwrites⟩)
  · exact Ends.bind_ok (hattempt hrun) (Ends.of_ok rfl ⟨rfl, hend.ok hrun⟩)

/-- A page is written to its file, unless the device fails. -/
lemma writePage_saves (hs : ∀ c ∈ C, s.Backed A c) (hc : c ∈ C) (i : ℕ) :
    Ends (writePage c (s.store.pathOf c) i) s (fun _ s' => s.Saves A C s' ∧ s'.Clean c i)
      (fun e s' => e.IsIo ∧ s.Saves A C s') := by
  refine Ends.bind_ok (run_get s) ?_
  cases hf : (s.store.caches[c]?).bind (·.frames[i]?) with
  | none =>
      refine Ends.of_ok rfl ⟨.refl (hs c hc).honest hs, fun k f hk hf' => ?_⟩
      rw [hk, Option.bind_some, hf'] at hf
      cases hf
  | some f =>
      obtain ⟨k, hk, hf⟩ := Option.bind_eq_some_iff.mp hf
      simp only
      split
      swap
      · rename_i hclean
        refine Ends.of_ok rfl ⟨.refl (hs c hc).honest hs, fun k' f' hk' hf' => ?_⟩
        obtain rfl : k = k' := Option.some.inj (hk.symm.trans hk')
        obtain rfl : f = f' := Option.some.inj (hf.symm.trans hf')
        simpa using hclean
      rename_i hdirty
      have hbacked := (hs c hc).opened hk
      have hwhole : f.bytes.bytes.length ≤ s.size := by
        rw [Page.length_bytes, hbacked.frame_size hf]
      have hlength : ∀ n, (f.bytes.bytes.take n).length ≤ s.size := fun n =>
        (List.length_take_le' _ _).trans hwhole
      refine Ends.bind_ok (show pageSize s = (.ok s.size, s) from rfl) ?_
      refine Ends.bind ((perform_writes (hs c hc).honest ((hs c hc).present hk) _ f.bytes).mono_error ?_) ?_
      · -- some of the bytes have reached the file, and the page is still marked. It is shown from
        -- memory, so the array is the same.
        rintro e s' ⟨hio, hstore, n, hwrites⟩
        refine ⟨hio, saves_of_written hs hc hk (by rw [hstore]; exact hk) (by rw [hstore])
          (by rw [hstore]) (fun _ _ => by rw [hstore]) hwrites
          (hbacked.write_end (hs c hc).size_pos hf (hlength n)) rfl
          (hbacked.write_part (hs c hc).size_pos hf hdirty n) (hbacked.array_write_part hf n) ?_⟩
        intro j hj k' f' hk'
        exact hj k' f' (hstore ▸ hk')
      · -- all bytes have reached the file, and the page loses its mark
        rintro - s' ⟨hstore, hwrites⟩
        set g : Frame := { f with dirty := false } with hg
        have hk' : (s'.withFrame c i g).store.caches[c]?
            = some { k with frames := k.frames.insert i g } :=
          withFrame_open (by rw [hstore]; exact hk) i g
        have hclean : ∀ j, j = i ∨ s.Clean c j → (s'.withFrame c i g).Clean c j := by
          rintro j hj k₁ f₁ hk₁ hf₁
          obtain rfl : _ = k₁ := Option.some.inj (hk'.symm.trans hk₁)
          rw [getElem?_insert_frame] at hf₁
          by_cases hij : i = j
          · rw [if_pos hij] at hf₁
            obtain rfl : g = f₁ := Option.some.inj hf₁
            rfl
          · rw [if_neg hij] at hf₁
            exact hj.resolve_left (Ne.symm hij) k f₁ hk hf₁
        refine Ends.of_ok (putFrame_run c i g s') ⟨?_, hclean i (.inl rfl)⟩
        have honly := withFrame_only c i g s'
        refine saves_of_written hs hc hk hk' ?_ ?_ (fun c' hne => ?_) hwrites
          (hbacked.write_end (hs c hc).size_pos hf hwhole) rfl
          (hbacked.write (hs c hc).size_pos hf) (hbacked.array_write hf) fun j hj => hclean j (.inr hj)
        · exact (congrArg PageStore.folder hstore : s'.store.folder = s.store.folder)
        · exact honly.options.trans (congrArg PageStore.options hstore)
        · rw [honly.others c' hne, hstore]

/-! ### A whole flush -/

/-- A call that only asks the device writes nothing. -/
lemma Asks.saves (h : s.Asks A s') (hs : ∀ c ∈ C, s.Backed A c) : s.Saves A C s' where
  honest := h.stays.honest
  backed c hc := (h.same c).backed (hs c hc)
  array c _ := (h.same c).array
  folder := by rw [h.store]
  options := by rw [h.store]
  opened c := by rw [h.store]
  present := h.stays.present
  grows c _ := by
    rw [h.file]
    exact .refl _ _
  clean hclean k f hk := hclean k f (h.store ▸ hk)

/-- Pages are written one after the other. -/
lemma forM_writePage_saves (pages : List (CacheId × String × ℕ)) (hhonest : A.Honest s.device)
    (hs : ∀ c ∈ C, s.Backed A c)
    (hpages : ∀ e ∈ pages, e.1 ∈ C ∧ e.2.1 = s.store.pathOf e.1) :
    Ends (pages.forM fun e => writePage e.1 e.2.1 e.2.2) s
      (fun _ s' => s.Saves A C s' ∧ ∀ e ∈ pages, s'.Clean e.1 e.2.2)
      (fun e s' => e.IsIo ∧ s.Saves A C s') := by
  induction pages generalizing s with
  | nil => exact ⟨.refl hhonest hs, fun _ he => absurd he List.not_mem_nil⟩
  | cons e rest ih =>
      obtain ⟨c, path, i⟩ := e
      obtain ⟨hc, rfl⟩ : c ∈ C ∧ path = s.store.pathOf c := hpages _ List.mem_cons_self
      refine Ends.bind (writePage_saves hs hc i) ?_
      rintro - s₁ ⟨h₁, hclean₁⟩
      refine (ih h₁.honest h₁.backed fun e he => ?_).mono ?_ fun _ _ h => ⟨h.1, h₁.trans h.2⟩
      · rw [h₁.pathOf]
        exact hpages e (List.mem_cons_of_mem _ he)
      · rintro - s₂ ⟨h₂, hclean₂⟩
        refine ⟨h₁.trans h₂, fun e he => ?_⟩
        obtain rfl | he := List.mem_cons.mp he
        · exact h₂.clean hclean₁
        · exact hclean₂ e he

/-- A flush goes through pages of open caches. -/
lemma path_of_pagesInMemory (hs : ∀ c ∈ C, s.Backed A c) (hC : ∀ c, c ∈ s.store.caches → c ∈ C)
    (o : Schedule) : ∀ e ∈ o.pages (pagesInMemory s.store.caches.toList),
      e.1 ∈ C ∧ e.2.1 = s.store.pathOf e.1 := by
  intro e he
  obtain ⟨e', he', hin⟩ := List.mem_flatMap.mp ((o.pages_perm _).mem_iff.mp he)
  obtain ⟨i, -, rfl⟩ := List.mem_map.mp hin
  have hk := Std.TreeMap.mem_toList_iff_getElem?_eq_some.mp he'
  have hin : e'.1 ∈ C := hC _ (Std.TreeMap.mem_iff_isSome_getElem?.mpr (by rw [hk]; rfl))
  exact ⟨hin, (hs e'.1 hin).path hk⟩

/-- A flush in any order, whole or broken off, changes no page. When it is whole, every page
in memory stands in its file. -/
lemma flushIn_saves (hs : ∀ c ∈ C, s.Backed A c) (hC : ∀ c, c ∈ s.store.caches → c ∈ C)
    (hhonest : A.Honest s.device) (o : Schedule) :
    Ends (flushIn o) s (fun _ s' => s.Saves A C s' ∧ ∀ c i, s'.Clean c i)
      (fun e s' => e.IsIo ∧ s.Saves A C s') := by
  refine Ends.bind_ok (run_get s) ?_
  -- every page in memory is among those that are written
  have hmem : ∀ {c k i f}, s.store.caches[c]? = some k → k.frames[i]? = some f →
      (c, k.path, i) ∈ o.pages (pagesInMemory s.store.caches.toList) := by
    intro c k i f hk hf
    refine (o.pages_perm _).mem_iff.mpr (List.mem_flatMap.mpr ⟨(c, k), ?_, ?_⟩)
    · exact Std.TreeMap.mem_toList_iff_getElem?_eq_some.mpr hk
    · refine List.mem_map.mpr ⟨i, Std.TreeMap.mem_keys.mpr ?_, rfl⟩
      exact Std.TreeMap.mem_iff_isSome_getElem?.mpr (by rw [hf]; rfl)
  refine Ends.bind (forM_writePage_saves _ hhonest hs (path_of_pagesInMemory hs hC o)) ?_
  · rintro - s₁ ⟨h₁, hwritten⟩
    have hclean : ∀ c i, s₁.Clean c i := by
      intro c i
      by_cases hframe : ∃ k f, s.store.caches[c]? = some k ∧ k.frames[i]? = some f
      · obtain ⟨k, f, hk, hf⟩ := hframe
        exact hwritten _ (hmem hk hf)
      · exact h₁.clean fun k f hk hf => absurd ⟨k, f, hk, hf⟩ hframe
    refine (ends_forM (I := fun s' => s₁.Asks A s') (F := fun e s' => e.IsIo ∧ s₁.Asks A s')
      _ (fun path _ s' h => ?_) (.refl h₁.honest)).mono ?_ ?_
    · exact (perform_asks (A.sync_calm path _ h.stays.honest)).mono (fun _ _ h' => h.trans h'.1)
        fun _ _ h' => ⟨h'.1, h.trans h'.2⟩
    · rintro - s₂ h₂
      have hsaves := h₂.saves h₁.backed
      exact ⟨h₁.trans hsaves, fun c i => hsaves.clean (hclean c i)⟩
    · exact fun _ _ h => ⟨h.1, h₁.trans (h.2.saves h₁.backed)⟩

end Session

end PageCatalog
