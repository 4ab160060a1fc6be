import Mathlib.Tactic
import PageCatalog.Proofs.Tree.Insertion
import PageCatalog.Proofs.Tree.Lookup
import PageCatalog.Proofs.Tree.Making
import PageCatalog.Proofs.Tree.Removal

/-!
A held tree as a sorted map.

Every operation of a tree is described by what it does to the list of its rows. The
pages are in memory here, as those of a tree are that was made in the session.

* `Tree.HoldsRows`: a tree in order with given rows.
* `HoldsRows.put_ends`, `remove_ends`, `find_ends`, `size_ends`, `walk_ends`,
  `takeOver_ends`: the operations.
* `Tree.holdsRows_new`, `Tree.holdsRows_of_start`: a new tree has no rows.
-/

namespace PageCatalog

/-- An error of the device, or the lack of a page. -/
def Failure.IsTrouble (e : Failure) : Prop := e.IsIo ∨ ∃ c, e = .error (.outOfSpace c)

namespace Tree

variable {ρ κ δ : Type} [LinearOrder κ] [Device δ]

/-- A session holds a tree in order with given rows. -/
def HoldsRows (t : Tree ρ) (key : ρ → κ) (s : Session δ) (rows : List ρ) : Prop :=
  ∃ T, t.Holds (.none δ) s T ∧ T.Proper key ∧ T.rows = rows

variable {t : Tree ρ} {key : ρ → κ} {s s' : Session δ} {rows : List ρ}

lemma HoldsRows.quiet (h : t.HoldsRows key s rows) (hquiet : s.Quiet (.none δ) t.cache s') :
    t.HoldsRows key s' rows := by
  obtain ⟨T, hT, hproper, hrows⟩ := h
  exact ⟨T, hT.quiet hquiet, hproper, hrows⟩

/-- The name of a handle does not matter. -/
lemma HoldsRows.rename (h : t.HoldsRows key s rows) (name : String) :
    ({ t with name := name } : Tree ρ).HoldsRows key s rows := by
  obtain ⟨T, ⟨hsize, hroot, hstored, hdistinct, hmeta⟩, hproper, hrows⟩ := h
  exact ⟨T, ⟨hsize, hroot, hstored, hdistinct, hmeta⟩, hproper, hrows⟩

lemma HoldsRows.put_ends (hR : t.rows.Supported key) (h : t.HoldsRows key s rows) (row : ρ) :
    Ends (t.put row) s
      (fun old s' => t.rows.fits row = .ok () ∧ old = Rows.lookup key row rows ∧
        t.HoldsRows key s' (Rows.insert key row rows))
      (fun e s' => e.IsTrouble ∨
        ∃ error, t.rows.fits row = .error error ∧ e = .error error ∧ t.HoldsRows key s' rows) := by
  obtain ⟨T, hT, hproper, rfl⟩ := h
  obtain ⟨n, hn⟩ := hT.exists_next
  have hroomy := hR.roomy hT.size.1
  refine (hT.put_ends hR.lawful hroomy hproper.ordered row hn).mono ?_ ?_
  · rintro old s' ⟨hfits, hold, hbecomes⟩
    obtain ⟨hproper', hlookup, hrows⟩ := TreeShape.put_insert t.rows hroomy hproper hold
    exact ⟨hfits, hlookup, _, hbecomes.holds, hproper', hrows⟩
  · rintro e s' (⟨error, hfits, rfl, rfl⟩ | ⟨hfails, -⟩ | ⟨-, -, rfl, -⟩)
    · exact .inr ⟨error, hfits, rfl, T, hT, hproper, rfl⟩
    · exact .inl (.inl hfails.isIo)
    · exact .inl (.inr ⟨_, rfl⟩)

/-- What a put that does not fail leaves. -/
lemma HoldsRows.put_of_isOk (hR : t.rows.Supported key) (h : t.HoldsRows key s rows) {row : ρ}
    (hput : (t.put row s).1.isOk = true) :
    t.HoldsRows key (t.put row s).2 (Rows.insert key row rows) := by
  obtain ⟨old, hrun⟩ := run_of_isOk hput
  exact ((h.put_ends hR row).ok hrun).2.2

lemma HoldsRows.remove_ends (hR : t.rows.Supported key) (h : t.HoldsRows key s rows) (row : ρ) :
    Ends (t.remove row) s
      (fun old s' => old = Rows.lookup key row rows ∧ t.HoldsRows key s' (Rows.erase key row rows))
      (fun e _ => e.IsIo) := by
  obtain ⟨T, hT, hproper, rfl⟩ := h
  obtain ⟨n, hn⟩ := hT.exists_next
  refine (hT.remove_ends hR.lawful hproper.ordered row hn).mono ?_ fun _ _ h => h.isIo
  rintro old s' ⟨rfl, hbecomes⟩
  obtain ⟨hproper', hlookup, hrows⟩ := TreeShape.remove_erase hproper row
  exact ⟨hlookup, _, hbecomes.holds, hproper', hrows⟩

lemma HoldsRows.find_ends (hR : t.rows.Supported key) (h : t.HoldsRows key s rows) (row : ρ) :
    Ends (t.find? row) s (fun r s' => r = Rows.lookup key row rows ∧ t.HoldsRows key s' rows)
      (fun e _ => e.IsIo) := by
  obtain ⟨T, hT, hproper, rfl⟩ := h
  refine (hT.find_ends hR.lawful hproper.ordered row).mono ?_ fun _ _ h => h.1.isIo
  exact fun _ _ h => ⟨h.1, T, hT.quiet h.2, hproper, rfl⟩

lemma HoldsRows.size_ends (hR : t.rows.Supported key) (h : t.HoldsRows key s rows) :
    Ends t.size s (fun n s' => n = rows.length ∧ t.HoldsRows key s' rows) (fun e _ => e.IsIo) := by
  obtain ⟨T, hT, hproper, rfl⟩ := h
  refine (hT.size_ends hR.lawful hproper.ordered).mono ?_ fun _ _ h => h.isIo
  exact fun _ _ h => ⟨h.1, T, hT.quiet h.2, hproper, rfl⟩

/-- A walk as far down as the cache has pages. -/
lemma HoldsRows.walk_ends {β : Type} (hR : t.rows.Supported key) (h : t.HoldsRows key s rows)
    (visit : β → ρ → Except Error β) (b : β) :
    Ends (do t.walk visit b (← t.reach)) s
      (fun r s' => (∃ e, r.2 = .error e ∧ e.IsIo) ∨
        (r.1 = (Rows.visit visit b rows).1 ∧
          r.2 = (Rows.visit visit b rows).2.mapError Failure.error) ∧ t.HoldsRows key s' rows)
      (fun _ _ => False) := by
  obtain ⟨T, hT, hproper, rfl⟩ := h
  obtain ⟨n, hn⟩ := hT.exists_next
  have hlt := hT.height_lt hproper.ordered hn
  refine Ends.bind_ok (reach_run hn)
    ((hT.walk_ends hR.lawful visit b (show T.height < n + 1 by omega)).mono_ok ?_)
  exact fun _ _ h => h.imp (fun ⟨e, he, hfails⟩ => ⟨e, he, hfails.isIo⟩)
    fun h => ⟨h.1, T, hT.quiet h.2, hproper, rfl⟩

lemma HoldsRows.takeOver_ends (hR : t.rows.Supported key) (h : t.HoldsRows key s rows) :
    Ends (t.start (some false)) s (fun _ s' => t.HoldsRows key s' rows) (fun e _ => e.IsIo) := by
  obtain ⟨T, hT, hproper, rfl⟩ := h
  refine (hT.recover_ends hR.lawful).mono ?_ fun _ _ h => h.1.isIo
  exact fun _ _ hquiet => ⟨T, hT.quiet hquiet, hproper, rfl⟩

/-- A new tree has no rows. -/
lemma holdsRows_new (hR : t.rows.Supported key) (husual : 512 ≤ s.size ∧ s.size ≤ 65536)
    (hstart : t.start (some true) s = (.ok (), s')) : t.HoldsRows key s' [] := by
  obtain ⟨n, -, hT⟩ := start_new hR.lawful husual hstart
  exact ⟨_, hT, ⟨⟨List.Pairwise.nil, by simp⟩, fun hne => absurd rfl hne, trivial⟩, rfl⟩

lemma holdsRows_of_start (hR : t.rows.Supported key) {folder : String} {options : Options}
    {d d' : δ} {store : PageStore} (hstore : Session.start folder options d = (.ok store, d'))
    (hstart : t.start (some true) ⟨d', store⟩ = (.ok (), s)) : t.HoldsRows key s [] :=
  holdsRows_new hR (Session.size_of_start hstore) hstart

end Tree

end PageCatalog
