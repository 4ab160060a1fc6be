import Mathlib.Tactic
import PageCatalog.Device.Faulty
import PageCatalog.Proofs.Directory.History
import PageCatalog.Proofs.Tree.Failure

/-!
What a drop leaves of a directory, whichever way it ends.

A drop takes the entry out of the tree and frees the page of the name after that. It looks
first whether the page can be had, and if not the entry stays. What it does not look at is
the child that a root gives way to once the entry is gone: where that child cannot be
loaded, the drop fails without its entry, and the page of the name is not freed.

* `Directory.Stands`: a directory in order, whether or not its pages can be had.
* `Directory.Undropped`: what a failed drop leaves; `Stands.drop_ends`.
* `Directory.reads_of_drop`: what is read after a drop.
-/

namespace PageCatalog

namespace Directory

variable {δ : Type} [Device δ]

/-- A directory in order: its tree is ordered, and the pages that are entered are apart from
the tree and from each other. Nothing is said of whether these pages can be had. -/
structure Stands (d : Directory) (s : Session δ) (T : TreeShape Entry) : Prop where
  holds : d.tree.Holds (.steady δ) s T
  ordered : T.Ordered Entry.key
  apart : ∀ e ∈ T.rows, e.page.index ∉ 0 :: T.indexes
  distinct : ∀ e ∈ T.rows, ∀ e' ∈ T.rows, e.page.index = e'.page.index → e = e'

/-- None of the pages of some entries has been freed since. -/
def Spares (d : Directory) (s : Session δ) (es : List Entry) (s' : Session δ) : Prop :=
  ∀ e ∈ es, s'.Freed d.cache e.page.index → s.Freed d.cache e.page.index

variable {d : Directory} {s s' : Session δ} {T : TreeShape Entry} {name : String} {n : ℕ}

/-- Changes of the tree spare the pages that are apart from it. -/
lemma spares_of_keeps {es : List Entry} (hn : s.next? d.cache = some n)
    (hn' : s'.next? d.cache = some n) {changed : List ℕ}
    (hkeeps : s.Keeps (.steady δ) d.cache changed s') (hapart : ∀ e ∈ es, e.page.index ∉ changed) :
    d.Spares s es s' :=
  fun e he hfreed => hkeeps.freed hn (hfreed.lt hn') (hapart e he) hfreed

/-- What a failed drop of a name leaves: a tree with all entries, or, if the entry was found,
one without it whose root is lower and cannot be loaded. No page of an entry is freed. -/
def Undropped (d : Directory) (s : Session δ) (T : TreeShape Entry) (name : String) (e : Failure)
    (s' : Session δ) : Prop :=
  d.Spares s T.rows s' ∧ ∃ T', d.tree.Holds (.steady δ) s' T' ∧ T'.Ordered Entry.key ∧
    (T' = T ∨ e.IsIo ∧ (∃ entry, Rows.lookup Entry.key (searchKey name) T.rows = some entry) ∧
      T'.rows = Rows.erase Entry.key (searchKey name) T.rows ∧ T'.height < T.height ∧
      ∀ p, ¬ s'.InMemory d.cache T'.top.id.index p)

lemma Stands.undropped_quiet (h : d.Stands s T) {e : Failure} (hn : s.next? d.cache = some n)
    (hquiet : s.Quiet (.steady δ) d.cache s') : d.Undropped s T name e s' :=
  ⟨spares_of_keeps hn (hquiet.next.trans hn) hquiet.keeps fun _ _ => List.not_mem_nil, T,
    h.holds.quiet hquiet, h.ordered, .inl rfl⟩

/-- A drop takes out the entry and frees its page, or finds no entry, or fails. -/
theorem Stands.drop_ends (h : d.Stands s T) (name : String) :
    Ends (d.drop name) s
      (fun r s' => match r with
        | some page => ∃ e T', Rows.lookup Entry.key (searchKey name) T.rows = some e ∧
            page = d.rootPage e.page false ∧ s'.Freed d.cache e.page.index ∧
            d.tree.Holds (.steady δ) s' T' ∧ T'.Ordered Entry.key ∧
            T'.rows = Rows.erase Entry.key (searchKey name) T.rows ∧ d.Spares s T'.rows s'
        | none => (Entry.longestName < (encode name).length ∨
            Rows.lookup Entry.key (searchKey name) T.rows = none) ∧
            s.Quiet (.steady δ) d.cache s')
      (fun e s' => d.Undropped s T name e s') := by
  obtain ⟨n, hn⟩ := h.holds.exists_next
  rw [drop]
  split
  · rename_i hlong
    exact Ends.of_ok rfl ⟨.inl hlong, .refl s⟩
  refine Ends.bind ((h.holds.find_ends d.tree_lawful h.ordered _).mono_error
    fun _ _ hfail => h.undropped_quiet hn hfail.2) ?_
  rintro _ s₁ ⟨rfl, hquiet⟩
  cases hlookup : Rows.lookup Entry.key (searchKey name) T.rows with
  | none => exact Ends.of_ok rfl ⟨.inr rfl, hquiet⟩
  | some e =>
      obtain ⟨he, hkey⟩ := (Rows.lookup_eq_some h.ordered.ascending).mp hlookup
      have hout := h.apart e he
      have hn₁ : s₁.next? d.cache = some n := hquiet.next.trans hn
      obtain ⟨k, hk, -⟩ := Option.map_eq_some_iff.mp hn₁
      have hlook := Session.frame_quiet (B := .steady δ) hk e.page
      have hopens := Session.frame_opens d.cache e.page s₁
      rcases hframe : Session.frame d.cache e.page s₁ with ⟨_ | f, s₂⟩
      · exact Ends.of_error (run_bind_error (run_map_error hframe _) _)
          (h.undropped_quiet hn (hquiet.trans (hlook.error hframe)))
      have hquiet₂ := hquiet.trans (hlook.ok hframe).1
      have hn₂ : s₂.next? d.cache = some n := hquiet₂.next.trans hn
      have hp := ((hopens.ok hframe).1).memory
      refine Ends.bind_ok (run_map_ok hframe _) (Ends.bind (Q := fun _ s₃ =>
        d.tree.Becomes (.steady δ) s T s₃ (T.remove Entry.key (searchKey name)).2 n ∧
          s₃.InMemory d.cache e.page.index f.bytes) (Ends.map ?_) ?_)
      · refine ((h.holds.quiet hquiet₂).remove_ends_unremoved d.tree_lawful h.ordered
          (searchKey name) hn₂).mono ?_ ?_
        · rintro _ s₃ ⟨-, hbecomes⟩
          exact ⟨⟨hbecomes.holds, hquiet₂.then hbecomes.keeps, hbecomes.next⟩,
            hbecomes.keeps.memory hout hp⟩
        · rintro error s₃ ⟨hfails, hquiet₃ | ⟨T', hbecomes, hordered, hrows, hlower, habsent⟩⟩
          · exact h.undropped_quiet hn (hquiet₂.trans hquiet₃)
          · exact ⟨spares_of_keeps hn hbecomes.next (hquiet₂.then hbecomes.keeps) h.apart, T',
              hbecomes.holds, hordered, .inr ⟨hfails.isIo, ⟨e, hlookup⟩, hrows, hlower, habsent⟩⟩
      · rintro - s₃ ⟨hbecomes, hp₃⟩
        obtain ⟨hordered, -, hrows⟩ := TreeShape.remove_ordered h.ordered (searchKey name)
        rw [List.mem_cons, not_or] at hout
        obtain ⟨s₄, hfree, hkeeps, hfreed, hn₄⟩ := Session.free_memory (B := .steady δ) hp₃ hout.1
        have hsub : ∀ i ∈ (T.remove Entry.key (searchKey name)).2.indexes, i ∈ T.indexes := fun i hi =>
          List.count_pos_iff.mp ((List.count_pos_iff.mpr hi).trans_le (TreeShape.count_remove_le T _ i))
        refine Ends.bind_ok hfree (Ends.of_ok rfl ⟨e, _, rfl, rfl, hfreed, ?_, hordered, hrows, ?_⟩)
        · refine hbecomes.holds.keeps hkeeps ?_ fun i hi hin => ?_
          · exact fun hin => hout.1 (List.mem_singleton.mp hin).symm
          · exact hout.2 (List.mem_singleton.mp hin ▸ hsub i hi)
        · -- an entry that is left is another one, with another page
          intro e' he' hfreed
          rw [hrows] at he'
          obtain ⟨hin, hne⟩ := Rows.mem_erase.mp he'
          have hother : e'.page.index ∉ [e.page.index] := fun hmem =>
            hne (h.distinct e' hin e he (List.mem_singleton.mp hmem) ▸ hkey)
          have hlt : e'.page.index < n := hfreed.lt (hn₄.trans hbecomes.next)
          exact hbecomes.keeps.freed hn hlt (h.apart e' hin)
            (hkeeps.freed hbecomes.next hlt hother hfreed)

/-- What is read after a drop. If it returns a page, that page is freed and its entry is gone;
if it finds no entry, all is as before. If it fails, no page of an entry is freed, and all
entries are there as before unless the root was lowered: then, and only then, the entry of
the name is gone, and the drop failed because the new root could not be loaded. -/
theorem reads_of_drop (h : d.Stands s T) (name : String) {r : Except Failure (Option RootPage)}
    (hdrop : d.drop name s = (r, s')) :
    d.tree.Reads Entry.key s T.top.id T.height T.rows ∧
      ∃ root level rows, d.tree.Reads Entry.key s' root level rows ∧
        match r with
        | .ok (some page) => ∃ e, Rows.lookup Entry.key (searchKey name) T.rows = some e ∧
            page = d.rootPage e.page false ∧ s'.Freed d.cache e.page.index ∧
            rows = Rows.erase Entry.key (searchKey name) T.rows ∧ d.Spares s rows s'
        | .ok none => (Entry.longestName < (encode name).length ∨
            Rows.lookup Entry.key (searchKey name) T.rows = none) ∧
            root = T.top.id ∧ level = T.height ∧ rows = T.rows ∧ d.Spares s rows s'
        | .error e => d.Spares s T.rows s' ∧
            (level = T.height ∧ root = T.top.id ∧ rows = T.rows ∨
              level < T.height ∧ e.IsIo ∧ (∀ p, ¬ s'.InMemory d.cache root.index p) ∧
                (∃ entry, Rows.lookup Entry.key (searchKey name) T.rows = some entry) ∧
                rows = Rows.erase Entry.key (searchKey name) T.rows) := by
  obtain ⟨n, hn⟩ := h.holds.exists_next
  refine ⟨h.holds.reads d.tree_lawful h.ordered, ?_⟩
  have hends := h.drop_ends name
  -- One case for each way in which a drop can end.
  rcases r with e | _ | page
  · obtain ⟨hspares, T', hT', hordered, rfl | ⟨hio, hfound, hrows, hlower, habsent⟩⟩ :=
      hends.error hdrop
    · exact ⟨_, _, _, hT'.reads d.tree_lawful hordered, hspares, .inl ⟨rfl, rfl, rfl⟩⟩
    · exact ⟨_, _, _, hT'.reads d.tree_lawful hordered, hspares,
        .inr ⟨hlower, hio, habsent, hfound, hrows⟩⟩
  · obtain ⟨hnone, hquiet⟩ := hends.ok hdrop
    refine ⟨_, _, _, (h.holds.quiet hquiet).reads d.tree_lawful h.ordered, hnone, rfl, rfl, rfl, ?_⟩
    exact spares_of_keeps hn (hquiet.next.trans hn) hquiet.keeps fun _ _ => List.not_mem_nil
  · obtain ⟨e, T', hlookup, hpage, hfreed, hT', hordered, hrows, hspares⟩ := hends.ok hdrop
    exact ⟨_, _, _, hT'.reads d.tree_lawful hordered, e, hlookup, hpage, hfreed, hrows, hspares⟩

end Directory

/-! ### A root that is out of reach -/

namespace Session

/-- A store without page `i` of a cache in memory, on a disk that has stopped telling the
sizes of its files. -/
def stranded (s : Session MemoryDisk) (c : CacheId) (i : ℕ) : Session (Faulty MemoryDisk) where
  device := { inner := s.device, faults := { fileSize := true } }
  store := { s.store with caches := s.store.caches.modify c fun k =>
    { k with frames := k.frames.erase i } }

variable {δ : Type} [Device δ]

lemma load_sizeless {s : Session (Faulty δ)} (h : s.device.faults.fileSize = true) (path : String)
    (i : ℕ) : load path i s = (.error (.error (.io (Faulty.injected "file_size"))), s) := by
  have hsize : perform (Device.size path) s
      = (.error (.error (.io (Faulty.injected "file_size"))), s) := by
    have hcall : Device.size path s.device = (.error (Faulty.injected "file_size"), s.device) :=
      if_pos h
    have hattempt : attempt (Device.size path) s
        = (.ok (.error (Faulty.injected "file_size")), s) := by
      rw [attempt, hcall]
    rw [perform, run_bind_ok hattempt]
    rfl
  rw [load, run_bind_ok (show pageSize s = (.ok s.size, s) from rfl), run_bind_error hsize]

/-- A disk that tells no size lets no page be loaded, so nothing it is said to hold is wrong. -/
lemma has_sizeless {d : Faulty δ} (h : d.faults.fileSize = true) (path : String) (size i : ℕ)
    (p : Page) : (Backing.steady (Faulty δ)).Has d path size i p := by
  intro s q s' hloads _ hload
  have hsizeless : s.device.faults.fileSize = true := by
    generalize s.device = e at hloads
    induction hloads with
    | refl => exact h
    | tail _ hlast ih =>
        obtain ⟨path', j, s₁, r, s₂, hrun, rfl, rfl⟩ := hlast
        rw [load_sizeless ih] at hrun
        cases hrun
        exact ih
  rw [load_sizeless hsizeless] at hload
  cases hload

lemma InMemory.stranded {s : Session MemoryDisk} {c : CacheId} {j : ℕ} {p : Page}
    (h : s.InMemory c j p) (i : ℕ) : (s.stranded c i).Shows (.steady (Faulty MemoryDisk)) c j p := by
  obtain ⟨k, f, hk, hj, hf, hfreed, hbytes⟩ := h
  have hk' : (s.stranded c i).store.caches[c]? = some { k with frames := k.frames.erase i } := by
    simp [Session.stranded, hk]
  by_cases hij : i = j
  · subst hij
    exact .inr ⟨_, hk', hj, by simp, has_sizeless rfl _ _ _ _⟩
  · refine .inl ⟨_, f, hk', hj, ?_, hfreed, hbytes⟩
    simp only [Std.TreeMap.getElem?_erase, compare_eq_iff_eq, if_neg hij]
    exact hf

end Session

namespace Directory

/-- A directory in memory stands, also if one of its pages has to be loaded in vain. -/
lemma Held.stranded {d : Directory} {s : Session MemoryDisk} {D : DirectoryShape}
    (h : d.Held (.none MemoryDisk) s D) (i : ℕ) : d.Stands (s.stranded d.cache i) D.tree where
  holds := h.holds.transport rfl fun _ _ _ hp => (Session.shows_none.mp hp).stranded i
  ordered := h.tidy.ordered
  apart := h.tidy.apart
  distinct := h.tidy.distinct

/-- Seven names make a tree of two leaves, and the first leaf keeps one of them. -/
def lettered : List DirectoryCall :=
  [.obtain "a", .obtain "b", .obtain "c", .obtain "d", .obtain "e", .obtain "f", .obtain "g", .drop "b",
    .drop "c"]

/-- A drop fails although the name is entered, and the entry is gone: the root gives way to
the second leaf, page 9, which cannot be loaded. -/
theorem reads_of_drop_stranded :
    ∃ (s s' : Session (Faulty MemoryDisk)) (T : TreeShape Entry) (e : Failure) (entry : Entry)
      (root : PageId) (rows : List Entry), (⟨1⟩ : Directory).Stands s T ∧
        (⟨1⟩ : Directory).drop "a" s = (.error e, s') ∧
        Rows.lookup Entry.key (searchKey "a") T.rows = some entry ∧
        (⟨1⟩ : Directory).Spares s T.rows s' ∧
        (⟨1⟩ : Directory).tree.Reads Entry.key s' root 0 rows ∧
        rows = Rows.erase Entry.key (searchKey "a") T.rows := by
  -- the session is hidden, so that nothing evaluates it again
  obtain ⟨s₀, hstart, hanswered, hfail, hbefore, hafter⟩ :
      ∃ s₀ : Session MemoryDisk, Directory.start 1 .blank = (.ok ⟨1⟩, s₀) ∧
        (⟨1⟩ : Directory).answered lettered s₀ = true ∧
        ((⟨1⟩ : Directory).drop "a"
          (((⟨1⟩ : Directory).sessionAfter lettered s₀).stranded 1 9)).1.isOk = false ∧
        ((⟨1⟩ : Directory).level
          (((⟨1⟩ : Directory).sessionAfter lettered s₀).stranded 1 9)).1 = .ok 1 ∧
        ((⟨1⟩ : Directory).level ((⟨1⟩ : Directory).drop "a"
          (((⟨1⟩ : Directory).sessionAfter lettered s₀).stranded 1 9)).2).1 = .ok 0 := by
    obtain ⟨⟨⟩, hmade⟩ := run_of_isOk (show ((⟨1⟩ : Directory).tree.start none .blank).1.isOk = true by
      decide +kernel)
    refine ⟨((⟨1⟩ : Directory).tree.start none .blank).2, ?_, by decide +kernel⟩
    rw [Directory.start, run_bind_ok hmade]
    rfl
  obtain ⟨-, hregisters⟩ :=
    registers_of_start Session.blank_start ⟨⟨0⟩, by decide +kernel, rfl⟩ hstart
  obtain ⟨D, hheld, -⟩ := hregisters.history (sound_of_answered hanswered)
  generalize (⟨1⟩ : Directory).sessionAfter lettered s₀ = s₁ at hfail hbefore hafter hheld
  have hstands := hheld.stranded 9
  rcases hdrop : (⟨1⟩ : Directory).drop "a" (s₁.stranded 1 9) with ⟨e | page, s'⟩
  swap
  · rw [hdrop] at hfail
    cases hfail
  rw [hdrop] at hafter
  obtain ⟨hreads, root, level, rows, hreads', hspares, hcases⟩ := reads_of_drop hstands "a" hdrop
  have hhigh : 1 = D.tree.height := hreads.level.ok (Prod.ext hbefore rfl)
  obtain rfl : 0 = level := hreads'.level.ok (Prod.ext hafter rfl)
  obtain ⟨hlevel, -⟩ | ⟨-, -, -, ⟨entry, hentry⟩, hrows⟩ := hcases
  · omega
  · exact ⟨_, s', D.tree, e, entry, root, rows, hstands, hdrop, hentry, hspares, hreads', hrows⟩

end Directory

end PageCatalog
