import Mathlib.Tactic
import PageCatalog.Proofs.Directory.History
import PageCatalog.Proofs.Tree.Nodes

/-!
What becomes of the pages of a directory's cache.

In a cache that a directory has for itself, every page is the meta page, a node of the tree,
the page of an entry or a page that was freed, and it is only one of these. A call that takes
pages puts each of them to use, and a call after which a page is of no use has freed it.

* `DirectoryShape.Uses`, `Directory.Moves.spent`: pages out of use are freed.
* `Directory.Accounts`: the pages of a cache, counted as the program counts them.
* `Directory.accounts_of_answered`: histories.
-/

namespace PageCatalog

namespace Directory

variable {δ : Type} [Device δ] {B : Backing δ} {d : Directory} {s s' : Session δ} {D : DirectoryShape}

/-- A page that is of no use was freed. -/
def Spent (d : Directory) (s : Session δ) (D : DirectoryShape) : Prop :=
  ∀ i < D.next, D.Uses i ∨ s.Freed d.cache i

/-- Pages that are in use are shown. -/
lemma Held.exists_shows (h : d.Held B s D) {i : ℕ} (hi : D.Uses i) : ∃ p, s.Shows B d.cache i p := by
  obtain hi | ⟨e, he, rfl⟩ := hi
  · obtain rfl | hi := List.mem_cons.mp hi
    · exact h.holds.root.imp fun _ h => h.1
    · exact h.holds.stored.exists_shows hi
  · exact h.shown e he

lemma Held.not_freed (h : d.Held B s D) {i : ℕ} (hi : D.Uses i) : ¬ s.Freed d.cache i := by
  obtain ⟨p, hp⟩ := h.exists_shows hi
  exact hp.not_freed

/-- The page that a call drops was in use. -/
lemma uses_dropped (h : D.Tidy) {call : DirectoryCall} {size i : ℕ}
    (hi : i ∈ call.dropped (call.act d size D).1) : D.Uses i := by
  cases call with
  | drop name =>
      obtain hdrop | ⟨e, hfind, hdrop⟩ := DirectoryCall.drop_cases d D name <;>
        rw [DirectoryCall.act, hdrop] at hi
      · exact absurd hi List.not_mem_nil
      · exact .inr ⟨e, (h.find?_eq_some.mp hfind).1, (List.mem_singleton.mp hi).symm⟩
  | obtain name => exact absurd hi List.not_mem_nil
  | entries => exact absurd hi List.not_mem_nil
  | names => exact absurd hi List.not_mem_nil
  | size => exact absurd hi List.not_mem_nil

/-- A call leaves freed pages freed. -/
lemma Moves.still (h : d.Held B s D) {call : DirectoryCall} (hmoves : d.Moves B s D call s') {i : ℕ}
    (hfreed : s.Freed d.cache i) : s'.Freed d.cache i := by
  refine hmoves.keeps.still (fun hin => h.not_freed ?_ hfreed) hfreed
  obtain hin | hin := List.mem_append.mp hin
  · exact .inl hin
  · exact uses_dropped h.tidy hin

/-- A call that is answered leaves no page out of use that is not freed. -/
lemma Moves.spent (h : d.Held B s D) {call : DirectoryCall} (hmoves : d.Moves B s D call s')
    (hok : (call.act d s.size D).1.isOk = true) (hspent : d.Spent s D) :
    d.Spent s' (call.act d s.size D).2 := by
  intro i hi
  obtain hlt | hle := Nat.lt_or_ge i D.next
  · obtain huses | hfreed := hspent i hlt
    · obtain huses | ⟨hin, hout⟩ | hdropped := DirectoryCall.uses_act h.tidy h.roomy call hok huses
      · exact .inl huses
      · exact .inr (hmoves.released hok i hin hout)
      · exact .inr (hmoves.freed i hdropped)
    · exact .inr (hmoves.still h hfreed)
  · exact .inl (DirectoryCall.uses_new h.tidy h.roomy call hok hle hi)

/-- After calls that were answered every page is in use or freed. -/
lemma Held.spent_after (h : d.Held B s D) (hspent : d.Spent s D) {calls : List DirectoryCall}
    (hcalls : d.answered calls s = true) :
    ∃ D', d.Held B (d.sessionAfter calls s) D' ∧ d.Spent (d.sessionAfter calls s) D' := by
  induction calls generalizing s D with
  | nil => exact ⟨D, h, hspent⟩
  | cons call rest ih =>
      rw [answered, Bool.and_eq_true] at hcalls
      obtain ⟨a, hrun⟩ := run_of_isOk hcalls.1
      obtain ⟨hact, hmoves⟩ := (h.step_ends call).ok hrun
      exact ih hmoves.held (hmoves.spent h (by rw [hact]; rfl) hspent) hcalls.2

/-- No page of another kind comes into memory. -/
lemma framed_after {calls : List DirectoryCall} (h : s.Framed d.cache) :
    (d.sessionAfter calls s).Framed d.cache := by
  induction calls generalizing s with
  | nil => exact h
  | cons call rest ih => exact ih ((d.step_within call).framed h)

/-! ### Counting -/

/-- The pages of the cache of a directory, as the program counts them: the meta page, the nodes
that links lead to from the root, the pages of the entries and the freed pages are different
pages, and there are no others. -/
structure Accounts (d : Directory) (s : Session δ) (nodes : List PageId) (es : List Entry)
    (freed : List ℕ) (n : ℕ) : Prop where
  reached : ∃ root, (d.tree.root s).1 = .ok root ∧
    ∀ id, id ∈ nodes ↔ ∃ steps, d.tree.Reaches s steps root id
  listed : (d.entries s).1 = .ok es
  size_eq : (d.size s).1 = .ok es.length
  mem_freed : ∀ i, i ∈ freed ↔ s.Freed d.cache i
  freedCount_eq : (Session.freedCount d.cache s).1 = .ok freed.length
  pageCount_eq : (Session.pageCount d.cache s).1 = .ok n
  sum : n = 1 + nodes.length + es.length + freed.length
  each : (0 :: nodes.map PageId.index ++ es.map (fun e => e.page.index) ++ freed).Perm (List.range n)

/-- The freed pages of a cache, each once. -/
lemma exists_freed {c : CacheId} (hframed : s.Framed c) {n : ℕ} (hn : s.next? c = some n) :
    ∃ freed : List ℕ, freed.Nodup ∧ (∀ i, i ∈ freed ↔ s.Freed c i) ∧
      (Session.freedCount c s).1 = .ok freed.length := by
  obtain ⟨k, hk, rfl⟩ := Option.map_eq_some_iff.mp hn
  refine ⟨k.freed.toList, k.freed.nodup_toList, fun i => ?_, ?_⟩
  · rw [Finset.mem_toList, CacheFile.mem_freed]
    constructor
    · rintro ⟨f, hf, hfreed⟩
      exact ⟨k, f, hk, hframed k i f hk hf, hf, hfreed⟩
    · rintro ⟨k', f, hk', -, hf, hfreed⟩
      obtain rfl : k = k' := Option.some.inj (hk.symm.trans hk')
      exact ⟨f, hf, hfreed⟩
  · rw [Session.freedCount, run_bind_ok (Session.cacheFile_open hk), Finset.length_toList,
      CacheFile.card_freed]
    rfl

/-- The pages of the tree and of the entries are all different. -/
lemma DirectoryShape.nodup_uses (h : D.Tidy) (hdistinct : D.tree.indexes.Nodup)
    (hmeta : 0 ∉ D.tree.indexes) :
    (0 :: D.tree.indexes ++ D.tree.rows.map fun e => e.page.index).Nodup := by
  refine (List.nodup_cons.mpr ⟨hmeta, hdistinct⟩).append ?_ fun i hi hin => ?_
  · have hrows : D.tree.rows.Nodup := h.ordered.ascending.imp fun hlt heq => by
      rw [heq] at hlt
      exact lt_irrefl _ hlt
    exact hrows.map_on fun e he e' he' heq => h.distinct e he e' he' heq
  · obtain ⟨e, he, rfl⟩ := List.mem_map.mp hin
    exact h.apart e he hi

/-- A directory whose pages out of use are freed accounts for all pages. -/
lemma Held.accounts (h : d.Held (.none δ) s D) (hspent : d.Spent s D) (hframed : s.Framed d.cache) :
    ∃ nodes freed, d.Accounts s nodes D.tree.rows freed D.next := by
  obtain ⟨freed, hnodup, hmem, hcount⟩ := exists_freed hframed h.next
  have hfails : ∀ {e : Failure} {P : Prop}, (Backing.none δ).Fails e → P :=
    fun ⟨_, _, _, _, _, hhas, _⟩ => hhas.elim
  have hread : ∀ {α : Type} {m : SessionM δ α} {a : α},
      Ends m s (fun b s' => b = a ∧ s.Quiet (.none δ) d.cache s') (fun e _ => (Backing.none δ).Fails e) →
      (m s).1 = .ok a := fun {α m a} hends =>
    Ends.result (P := fun r _ => r = .ok a)
      (hends.mono (fun _ _ h => congrArg _ h.1) fun _ _ h => hfails h)
  -- The pages in use and the freed ones have no index in common, and an index below the next one
  -- is one of them.
  have hperm : (0 :: D.tree.top.ids.map PageId.index ++ D.tree.rows.map (fun e => e.page.index)
      ++ freed).Perm (List.range D.next) := by
    rw [Shape.ids_map_index]
    refine (List.perm_ext_iff_of_nodup ?_ List.nodup_range).mpr fun i => ?_
    · refine (DirectoryShape.nodup_uses h.tidy h.holds.distinct h.holds.meta_notMem).append hnodup
        fun i hi hin => h.not_freed ?_ ((hmem i).mp hin)
      exact (List.mem_append.mp hi).imp_right fun hi => List.mem_map.mp hi
    · rw [List.mem_range]
      constructor
      · intro hi
        obtain hi | hi := List.mem_append.mp hi
        · obtain ⟨p, hp⟩ := h.exists_shows (i := i)
            ((List.mem_append.mp hi).imp_right fun hi => List.mem_map.mp hi)
          exact hp.lt h.next
        · exact ((hmem i).mp hi).lt h.next
      · intro hi
        obtain huses | hfreed := hspent i hi
        · exact List.mem_append_left _ (List.mem_append.mpr (huses.imp_right fun h => List.mem_map.mpr h))
        · exact List.mem_append_right _ ((hmem i).mpr hfreed)
  refine ⟨D.tree.top.ids, freed, ⟨D.tree.top.id, ?_, fun id => ?_⟩, hread h.entries_ends,
    hread h.size_ends, hmem, hcount, by rw [Session.pageCount_run h.next], ?_, hperm⟩
  · exact hread (h.holds.root_ends.mono_error fun _ _ h => h.1)
  · exact Tree.mem_ids_iff d.tree_lawful D.tree.top h.holds.stored
  · have hlength := hperm.length_eq
    simp only [List.length_append, List.length_cons, List.length_map, List.length_range] at hlength
    omega

/-! ### Histories -/

/-- The root of a tree in a cache of one page is looked for without another page coming in. -/
lemma next_of_root {c : CacheId} {n : ℕ} (hcount : (Session.pageCount c s).1 = .ok n) {root : PageId}
    (hroot : (⟨c⟩ : Directory).tree.root s = (.ok root, s')) : s'.next? c = some n := by
  rcases hopen : Session.cacheFile c s with ⟨e | k, s₁⟩
  · rw [Session.pageCount, run_bind_error hopen] at hcount
    cases hcount
  rw [Session.pageCount, run_bind_ok hopen] at hcount
  obtain rfl : k.next = n := Except.ok.inj hcount
  have hk := ((Session.cacheFile_opens c s).ok hopen).1
  have hframe : Session.frame c .metaPage s = Session.frame c .metaPage s₁ := by
    rw [Session.frame, run_bind_ok hopen, run_bind_ok (Session.cacheFile_open hk)]
  have hquiet := Session.frame_quiet (B := .none δ) hk .metaPage
  rcases hrun : Session.frame c .metaPage s₁ with ⟨e | f, s₂⟩
  · have herror : (⟨c⟩ : Directory).tree.root s = (.error e, s₂) :=
      run_bind_error (hframe.trans hrun) _
    rw [hroot] at herror
    cases herror
  · have hrest : (⟨c⟩ : Directory).tree.root s = Session.settle (MetaPage.root f.bytes) s₂ :=
      run_bind_ok (hframe.trans hrun) _
    obtain rfl : s' = s₂ := by
      rw [hroot] at hrest
      cases hword : MetaPage.root f.bytes <;> rw [hword] at hrest <;> cases hrest
      rfl
    rw [(hquiet.ok hrun).1.next, Session.next?, hk]
    rfl

omit [Device δ] in
/-- The pages of a new directory are its meta page and the root of its tree. -/
lemma spent_blank : d.Spent s (blankShape 1) := by
  intro i hi
  have hi : i < 2 := hi
  obtain rfl | rfl : i = 0 ∨ i = 1 := by omega
  · exact .inl (.inl List.mem_cons_self)
  · exact .inl (.inl (by decide))

/-- A directory is made in a cache of one page, and nobody else asks for pages of the cache.
After calls that were all answered, each page is the meta page, a node that is reached from the
root, the page of an entry or a freed page, and only one of them. -/
theorem accounts_of_answered {folder : String} {options : Options} {e e' : δ} {store : PageStore}
    (hstore : Session.start folder options e = (.ok store, e')) {c : CacheId}
    (hcount : (Session.pageCount c ⟨e', store⟩).1 = .ok 1)
    (hfresh : ∃ root, ((⟨c⟩ : Directory).tree.root ⟨e', store⟩).1 = .ok root ∧ root.word = 0)
    (hstart : Directory.start c ⟨e', store⟩ = (.ok d, s)) {calls : List DirectoryCall}
    (hcalls : d.answered calls s = true) :
    ∃ nodes es freed n, d.Accounts (d.sessionAfter calls s) nodes es freed n := by
  obtain ⟨root, hroot, hword⟩ := hfresh
  have hrun : (⟨c⟩ : Directory).tree.root ⟨e', store⟩ = (.ok root, _) := Prod.ext hroot rfl
  obtain ⟨rfl, n, hn, hheld, -⟩ := held_of_start hstore hrun hword hstart
  obtain rfl : 1 = n := Option.some.inj ((next_of_root hcount hrun).symm.trans hn)
  have hframed : s.Framed c := by
    have hempty : (⟨e', store⟩ : Session δ).Framed c := fun k i f hk => by
      rw [show store.caches[c]? = none from Session.closed_of_start hstore c] at hk
      cases hk
    have := (start_within c).framed hempty
    rwa [hstart] at this
  obtain ⟨D, hafter, hspent⟩ := hheld.spent_after spent_blank hcalls
  obtain ⟨nodes, freed, haccounts⟩ := hafter.accounts hspent (framed_after hframed)
  exact ⟨nodes, _, freed, _, haccounts⟩

/-- Two names are entered and one of them is dropped: of the four pages one is freed. -/
theorem accounts_of_drop :
    ∃ s : Session MemoryDisk, Directory.start 1 .blank = (.ok ⟨1⟩, s) ∧
      ∃ nodes es freed, (⟨1⟩ : Directory).Accounts
        ((⟨1⟩ : Directory).sessionAfter [.obtain "a", .obtain "b", .drop "a"] s) nodes es freed 4 := by
  -- the session is hidden, so that nothing evaluates it again
  obtain ⟨s, hstart, hanswered, hfour⟩ :
      ∃ s : Session MemoryDisk, Directory.start 1 .blank = (.ok ⟨1⟩, s) ∧
        (⟨1⟩ : Directory).answered [.obtain "a", .obtain "b", .drop "a"] s = true ∧
        (Session.pageCount 1
          ((⟨1⟩ : Directory).sessionAfter [.obtain "a", .obtain "b", .drop "a"] s)).1 = .ok 4 := by
    obtain ⟨⟨⟩, hmade⟩ := run_of_isOk (show ((⟨1⟩ : Directory).tree.start none .blank).1.isOk = true by
      decide +kernel)
    refine ⟨((⟨1⟩ : Directory).tree.start none .blank).2, ?_, by decide +kernel, by decide +kernel⟩
    rw [Directory.start, run_bind_ok hmade]
    rfl
  obtain ⟨nodes, es, freed, n, haccounts⟩ := accounts_of_answered Session.blank_start
    (by decide +kernel) ⟨⟨0⟩, by decide +kernel, rfl⟩ hstart hanswered
  obtain rfl : n = 4 := Except.ok.inj (haccounts.pageCount_eq.symm.trans hfour)
  exact ⟨s, hstart, nodes, es, freed, haccounts⟩

end Directory

end PageCatalog
