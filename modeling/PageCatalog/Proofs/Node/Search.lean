import Mathlib.Tactic
import PageCatalog.Proofs.Node.Inner
import PageCatalog.Proofs.Rows.Sorted

/-!
Looking for a row in a node.

The slots of a node hold ascending rows. Halving them finds the place that the row
has in their list, so a search meets in a leaf that place, and in an inner node the
child behind as many separators as are at most the row.

* `Tree.searchBetween_placed`: halving, with its invariant.
* `Tree.arrive_leaf`, `Tree.arrive_inner`: what a search meets.
-/

namespace PageCatalog

namespace Tree

open RowFormat

variable {ρ κ : Type} [LinearOrder κ] (t : Tree ρ) {key : ρ → κ} {L : NodeLayout} {id : PageId}
  {rows keys : List ρ} {links : List PageId} {p : Page}

/-- The slots below `lo` hold smaller rows, those from `up` on greater ones: halving
what is between them ends at the place of the row, which is the gap between equal bounds. -/
lemma searchBetween_placed (hR : t.rows.Lawful key) (hslots : t.rows.SlotsHold L rows p)
    (hasc : Rows.Ascending key rows) (row : ρ) :
    ∀ (n lo up : ℕ), lo ≤ up → up ≤ rows.length → up ≤ lo + n →
      Rows.Around key row (rows.take lo) (rows.drop up) →
      ∃ at_, t.searchBetween L p row n lo up = .ok at_ ∧ Rows.Placed key row rows at_ := by
  intro n
  -- By induction on the steps that are left, which are no fewer than the slots between the
  -- bounds.
  induction n with
  | zero =>
      intro lo up hle hup hn haround
      obtain rfl : up = lo := by omega
      exact ⟨_, rfl, .of_drop hup haround⟩
  | succ n ih =>
      intro lo up hle hup hn haround
      rw [searchBetween]
      split
      · rename_i hlt
        set mid := lo + (up - lo) / 2 with hmid
        have hmid' : mid < rows.length := by omega
        have hsplit : rows.take mid ++ rows[mid] :: rows.drop (mid + 1) = rows := by
          rw [← List.drop_eq_getElem_cons, List.take_append_drop]
        -- The slots before the middle one are smaller than its row, those behind it greater, so
        -- one comparison settles a half.
        obtain ⟨-, hafter, hbefore⟩ := Rows.ascending_append.mp (hsplit ▸ hasc)
        have hafter' := (List.pairwise_cons.mp hafter).1
        have hload := hslots mid _ (List.getElem?_eq_getElem hmid')
        obtain ⟨o, hcompare, ho⟩ := hR.compare_of_load hload row
        have hcompare' : t.rows.compareSlot L mid p row = .ok o := hcompare
        simp only [hcompare', bind, Except.bind]
        cases o with
        | lt =>
            refine ih (mid + 1) up (by omega) hup (by omega) ⟨?_, haround.after⟩
            intro r hr
            rw [List.take_succ_eq_append_getElem hmid', List.mem_append] at hr
            rcases hr with hr | hr
            · exact (hbefore r hr _ List.mem_cons_self).trans ho
            · rw [List.mem_singleton.mp hr]
              exact ho
        | eq => exact ⟨_, rfl, hasc.placed_getElem hmid' ho⟩
        | gt =>
            refine ih lo mid (by omega) hmid'.le (by omega) ⟨haround.before, ?_⟩
            intro r hr
            rw [List.drop_eq_getElem_cons hmid'] at hr
            rcases List.mem_cons.mp hr with rfl | hr
            · exact ho
            · exact lt_trans ho (hafter' r hr)
      · obtain rfl : up = lo := by omega
        exact ⟨_, rfl, .of_drop hup haround⟩

lemma search_eq (hR : t.rows.Lawful key) (hcount : Node.count p = .ok rows.length)
    (hslots : t.rows.SlotsHold L rows p) (hasc : Rows.Ascending key rows) (row : ρ) :
    t.search L p row = .ok (Rows.place key row rows) := by
  obtain ⟨at_, hsearch, hplaced⟩ := t.searchBetween_placed hR hslots hasc row rows.length 0
    rows.length (Nat.zero_le _) le_rfl (by omega) ⟨by simp, by simp⟩
  rw [search, hcount, hplaced.place_eq]
  exact hsearch

lemma arrive_leaf (hR : t.rows.Lawful key) (h : t.rows.LeafPage id rows p)
    (hasc : Rows.Ascending key rows) (row : ρ) :
    t.arrive row id p = .ok (.leaf (Rows.place key row rows)) := by
  simp only [arrive, t.kind_leaf h, t.search_eq hR h.head.count h.slots hasc row, bind,
    Except.bind, pure, Except.pure]

lemma arrive_inner (hR : t.rows.Lawful key) (h : t.rows.InnerPage id keys links p)
    (hasc : Rows.Ascending key keys) (row : ρ) {child : PageId}
    (hchild : links[childAt (Rows.place key row keys)]? = some child) :
    t.arrive row id p = .ok (.inner (childAt (Rows.place key row keys)) child) := by
  simp only [arrive, t.kind_inner hR h, t.search_eq hR h.head.count h.slots hasc row,
    h.links _ _ hchild, bind, Except.bind, pure, Except.pure]

end Tree

end PageCatalog
