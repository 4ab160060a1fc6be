import Mathlib.Tactic
import PageCatalog.Proofs.Tree.Shape

/-!
Taking a row out of a shape.

A leaf that loses its last row is gone, and an inner node loses the child that is gone
with a separator beside it. An inner node without separators has a single child and is
gone with it. A topmost node without separators gives way to its child.

* `Shrunk`: what is left of a shape; `Shape.remove`, `Shape.collapse`,
  `TreeShape.remove`.
* `Shape.remove_meets`: order is kept, and the rows are those of the map.
* `Shape.Yields`: a topmost node without separators on its way to giving way.
* `TreeShape.remove_erase`: the same for whole trees.
-/

namespace PageCatalog

/-- What is left of a shape without a row. -/
structure Shrunk (ρ : Type) (h : ℕ) where
  /-- The row that was there. -/
  old : Option ρ
  /-- The shape without it, unless nothing is left. -/
  rest : Option (Shape ρ h)

namespace Shape

variable {ρ κ : Type} [LinearOrder κ] (key : ρ → κ) {h : ℕ}

/-- A row taken out of a leaf. -/
def shrinkLeaf (id : PageId) (rows : List ρ) (row : ρ) : Shrunk ρ 0 :=
  match Rows.place key row rows with
  | .gap _ => ⟨none, some (leaf id rows)⟩
  | .found i => ⟨rows[i]?, if rows.length = 1 then none else some (leaf id (rows.eraseIdx i))⟩

/-- What is left of an inner node, from what is left of its child `i`. -/
def shrinkAbove (id : PageId) (keys : List ρ) (children : List (Shape ρ h)) (i : ℕ) :
    Shrunk ρ h → Shrunk ρ (h + 1)
  | ⟨old, some c⟩ => ⟨old, some (inner id keys (children.set i c))⟩
  | ⟨old, none⟩ =>
    ⟨old, if keys.isEmpty then none
      else some (inner id (keys.eraseIdx (i - 1)) (children.eraseIdx i))⟩

/-- A row taken out of a shape. -/
def remove (row : ρ) : {h : ℕ} → Shape ρ h → Shrunk ρ h
  | 0, leaf id rows => shrinkLeaf key id rows row
  | _ + 1, inner id keys children =>
    let i := Tree.childAt (Rows.place key row keys)
    match children[i]? with
    | none => ⟨none, some (inner id keys children)⟩
    | some c => shrinkAbove id keys children i (c.remove row)

/-- A row taken out of a leaf. -/
lemma remove_leaf (id : PageId) (rows : List ρ) (row : ρ) :
    (leaf id rows).remove key row = shrinkLeaf key id rows row :=
  rfl

/-- A row taken out of an inner node: out of the child on the way to it. -/
lemma remove_inner (id : PageId) (keys : List ρ) (children : List (Shape ρ h)) (row : ρ) :
    (inner id keys children).remove key row =
      match children[Tree.childAt (Rows.place key row keys)]? with
      | none => ⟨none, some (inner id keys children)⟩
      | some c => shrinkAbove id keys children (Tree.childAt (Rows.place key row keys))
          (c.remove key row) :=
  rfl

/-- Topmost nodes without separators give way to their children. -/
def collapse : {h : ℕ} → Shape ρ h → TreeShape ρ
  | 0, T => ⟨0, T⟩
  | h + 1, inner id keys children =>
    match keys, children with
    | [], [c] => collapse c
    | _, _ => ⟨h + 1, inner id keys children⟩

/-- The trees that a shape passes through while topmost nodes without separators give way
to their children. -/
inductive Yields {ρ : Type} : {h : ℕ} → Shape ρ h → TreeShape ρ → Prop
  | refl {h : ℕ} (T : Shape ρ h) : Yields T ⟨h, T⟩
  | step {h : ℕ} (id : PageId) {c : Shape ρ h} {T' : TreeShape ρ} :
      Yields c T' → Yields (inner id [] [c]) T'

end Shape

/-- A row taken out of a whole tree. -/
def TreeShape.remove {ρ κ : Type} [LinearOrder κ] (key : ρ → κ) (row : ρ) (T : TreeShape ρ) :
    Option ρ × TreeShape ρ :=
  match T.top.remove key row with
  | ⟨old, some top⟩ => (old, top.collapse)
  | ⟨old, none⟩ => (old, ⟨0, .leaf T.top.id []⟩)

/-- The indexes of the pages that a shape still has without a row. The page of the topmost
node is not freed with what was below it. -/
def Shrunk.indexes {ρ : Type} {h : ℕ} (id : PageId) : Shrunk ρ h → List ℕ
  | ⟨_, some T⟩ => T.indexes
  | ⟨_, none⟩ => [id.index]

/-! ### Order and rows -/

/-- What is left of a shape between two bounds without a row. -/
structure Shrunk.Meets {ρ κ : Type} [LinearOrder κ] (key : ρ → κ) {h : ℕ} (lo : WithBot κ)
    (hi : WithTop κ) (row : ρ) (T : Shape ρ h) (left : Shrunk ρ h) : Prop where
  old : left.old = Rows.lookup key row T.rows
  some : ∀ T', left.rest = .some T' →
    T'.id = T.id ∧ T'.Ordered key lo hi ∧ T'.rows = Rows.erase key row T.rows ∧
      (T.Filled → T'.Filled)
  none : left.rest = .none → Rows.erase key row T.rows = []

namespace Shape

variable {ρ κ : Type} [LinearOrder κ] {key : ρ → κ} {h : ℕ} {lo : WithBot κ} {hi : WithTop κ}
  {id : PageId} {row : ρ} {rows keys kb ka : List ρ} {T c : Shape ρ h}
  {cb ca : List (Shape ρ h)}

/-- A child of which something is left stands in its place. -/
lemma shrinkAbove_some (id : PageId) (keys : List ρ) (cb : List (Shape ρ h)) (c : Shape ρ h)
    (ca : List (Shape ρ h)) (old : Option ρ) (c' : Shape ρ h) :
    shrinkAbove id keys (cb ++ c :: ca) cb.length ⟨old, some c'⟩
      = ⟨old, some (inner id keys (cb ++ c' :: ca))⟩ := by
  rw [shrinkAbove, set_middle]

/-- A child of which nothing is left goes with a separator, and a node without separators goes
with it. -/
lemma shrinkAbove_none (id : PageId) (keys : List ρ) (cb : List (Shape ρ h)) (c : Shape ρ h)
    (ca : List (Shape ρ h)) (old : Option ρ) :
    shrinkAbove id keys (cb ++ c :: ca) cb.length ⟨old, none⟩
      = ⟨old, if keys.isEmpty then none
          else some (inner id (keys.eraseIdx (cb.length - 1)) (cb ++ ca))⟩ := by
  rw [shrinkAbove, eraseIdx_middle]

/-- A leaf gives a row back, if it has it, and nothing is left of it if that was its only one. -/
lemma shrinkLeaf_meets (hrows : (leaf id rows).Ordered key lo hi) (row : ρ) :
    (shrinkLeaf key id rows row).Meets key lo hi row (leaf id rows) := by
  rw [shrinkLeaf]
  split
  · rename_i i hat
    obtain ⟨-, hlookup, -, herase⟩ := hrows.1.of_gap hat
    refine ⟨hlookup.symm, ?_, by simp⟩
    rintro T' ⟨⟩
    exact ⟨rfl, hrows, herase.symm, fun hne => hne⟩
  · rename_i i hat
    obtain ⟨r, hr, hlookup, -, herase⟩ := hrows.1.of_found hat
    have hi' : i < rows.length := (List.getElem?_eq_some_iff.mp hr).1
    have hlen := List.length_eraseIdx_of_lt hi'
    refine ⟨hr.trans hlookup.symm, ?_, ?_⟩
    · intro T' hT'
      simp only at hT'
      split at hT'
      · cases hT'
      · rename_i hmore
        cases hT'
        refine ⟨rfl, ⟨?_, ?_⟩, herase.symm, fun _ => List.ne_nil_of_length_pos (by omega)⟩
        · exact hrows.1.sublist (List.eraseIdx_sublist rows i)
        · exact fun q hq => hrows.2 q ((List.eraseIdx_sublist rows i).subset hq)
    · intro hnone
      simp only at hnone
      split at hnone
      · rw [rows_leaf, herase]
        exact List.eq_nil_of_length_eq_zero (by omega)
      · cases hnone

/-- What is left of a child is left of its parent, and nothing of both if it was the only one. -/
lemma shrinkAbove_meets (hroute : Route key (Ordered key) row lo hi kb ka cb c ca)
    (hT : (inner id (kb ++ ka) (cb ++ c :: ca)).Ordered key lo hi) {left : Shrunk ρ h}
    (hleft : ∀ lo hi, c.Ordered key lo hi → lo ≤ key row → key row < hi →
      left.Meets key lo hi row c) :
    (shrinkAbove id (kb ++ ka) (cb ++ c :: ca) cb.length left).Meets key lo hi row
      (inner id (kb ++ ka) (cb ++ c :: ca)) := by
  obtain ⟨lo', hi', hc, hlo', hhi', hput⟩ := hroute.child
  have haround := route_around hroute
  have hold : (inner id (kb ++ ka) (cb ++ c :: ca)).rows
      = cb.flatMap Shape.rows ++ c.rows ++ ca.flatMap Shape.rows := by
    simp
  have hmeets := hleft lo' hi' hc hlo' hhi'
  obtain ⟨old, rest⟩ := left
  have hlookup : old = Rows.lookup key row (inner id (kb ++ ka) (cb ++ c :: ca)).rows := by
    rw [hold, haround.lookup]
    exact hmeets.old
  -- The rows beside the child are other ones, so what is taken out is taken out of the child.
  cases rest with
  | some c' =>
      obtain ⟨-, hc', hrows, hfilled⟩ := hmeets.some c' rfl
      have hordered := hput [] [c'] hc'
      rw [List.append_nil, List.append_assoc, List.singleton_append] at hordered
      rw [shrinkAbove_some]
      refine ⟨hlookup, ?_, by simp⟩
      rintro T' ⟨⟩
      refine ⟨rfl, hordered, ?_, fun hT d hd => ?_⟩
      · rw [hold, haround.erase, ← hrows]
        simp
      · rcases List.mem_append.mp hd with hd | hd
        · exact hT d (List.mem_append_left _ hd)
        · rcases List.mem_cons.mp hd with rfl | hd
          · exact hfilled (hT c (by simp))
          · exact hT d (by simp [hd])
  | none =>
      -- Nothing is left of the child. Its neighbour gets its part of the fence, unless it has
      -- none.
      have hgone := hmeets.none rfl
      have herase : Rows.erase key row (inner id (kb ++ ka) (cb ++ c :: ca)).rows
          = cb.flatMap Shape.rows ++ ca.flatMap Shape.rows := by
        rw [hold, haround.erase, hgone, List.append_nil]
      rw [shrinkAbove_none]
      refine ⟨hlookup, ?_, ?_⟩
      · intro T' hT'
        simp only at hT'
        split at hT'
        · cases hT'
        · rename_i hne
          cases hT'
          refine ⟨rfl, ?_, ?_, fun hT d hd => ?_⟩
          · exact Fenced.erase widens_ordered hroute.length hT (by simpa using hne)
          · rw [herase]
            simp
          · rcases List.mem_append.mp hd with hd | hd
            · exact hT d (List.mem_append_left _ hd)
            · exact hT d (by simp [hd])
      · intro hnone
        simp only at hnone
        split at hnone
        · rename_i hempty
          have hlen := Fenced.length hT
          have hkeys : kb ++ ka = [] := by simpa using hempty
          rw [hkeys] at hlen
          simp only [List.length_append, List.length_cons, List.length_nil] at hlen
          obtain rfl : cb = [] := List.eq_nil_of_length_eq_zero (by omega)
          obtain rfl : ca = [] := List.eq_nil_of_length_eq_zero (by omega)
          rw [herase]
          rfl
        · cases hnone

/-- A row taken out of an inner node is taken out of the child on the way to it. -/
lemma remove_route (hroute : Route key (Ordered key) row lo hi kb ka cb c ca) :
    (inner id (kb ++ ka) (cb ++ c :: ca)).remove key row
      = shrinkAbove id (kb ++ ka) (cb ++ c :: ca) cb.length (c.remove key row) := by
  have hchild : (cb ++ c :: ca)[Tree.childAt (Rows.place key row (kb ++ ka))]? = some c := by
    rw [hroute.place]
    simp
  rw [remove_inner, hchild, hroute.place]

/-- A row taken out of an ordered shape: what is left is ordered, and its rows are those
of the map. -/
theorem remove_meets (hT : T.Ordered key lo hi) (hlo : lo ≤ key row) (hhi : key row < hi) :
    (T.remove key row).Meets key lo hi row T := by
  induction h generalizing lo hi with
  | zero =>
      obtain ⟨id, rows, rfl⟩ := T.exists_leaf
      exact shrinkLeaf_meets hT row
  | succ h ih =>
      obtain ⟨id, keys, children, rfl⟩ := T.exists_inner
      obtain ⟨kb, ka, cb, c, ca, rfl, rfl, hroute⟩ := Fenced.exists_route hT hlo hhi
      rw [remove_route hroute]
      exact shrinkAbove_meets hroute hT fun lo' hi' hc hlo' hhi' => ih hc hlo' hhi'

/-! ### Pages -/

omit [LinearOrder κ] in
/-- The pages that an inner node loses with a child are those of the child. -/
lemma mem_indexes_unlinked {keys : List ρ} {cb ca : List (Shape ρ h)} {c : Shape ρ h}
    (hlen : (cb ++ c :: ca).length = keys.length + 1) (old : Option ρ) {i : ℕ}
    (hi : i ∈ (inner id keys (cb ++ c :: ca)).indexes)
    (hout : i ∉ (shrinkAbove id keys (cb ++ c :: ca) cb.length ⟨old, none⟩).indexes id) :
    i ∈ c.indexes := by
  rw [shrinkAbove_none] at hout
  cases keys with
  | nil =>
      simp only [List.length_append, List.length_cons, List.length_nil] at hlen
      obtain rfl : cb = [] := List.eq_nil_of_length_eq_zero (by omega)
      obtain rfl : ca = [] := List.eq_nil_of_length_eq_zero (by omega)
      simp only [List.isEmpty_nil, if_true, Shrunk.indexes, List.mem_singleton] at hout
      simpa [hout] using hi
  | cons k ks =>
      simp only [List.isEmpty_cons, Bool.false_eq_true, if_false, Shrunk.indexes, indexes_inner,
        List.flatMap_append, List.mem_cons, List.mem_append, not_or] at hout
      simp only [indexes_inner, List.flatMap_append, List.flatMap_cons, List.mem_cons,
        List.mem_append] at hi
      tauto

variable (key) in
/-- A row taken out of an inner node is taken out of one of its children. -/
lemma remove_inner_cases (id : PageId) (keys : List ρ) (children : List (Shape ρ h)) (row : ρ) :
    (inner id keys children).remove key row = ⟨none, some (inner id keys children)⟩ ∨
      ∃ cb c ca, children = cb ++ c :: ca ∧
        (inner id keys children).remove key row
          = shrinkAbove id keys (cb ++ c :: ca) cb.length (c.remove key row) := by
  rw [remove_inner]
  cases hc : children[Tree.childAt (Rows.place key row keys)]? with
  | none => exact .inl rfl
  | some c =>
      obtain ⟨cb, ca, rfl, hlen⟩ := exists_split hc
      exact .inr ⟨cb, c, ca, rfl, by rw [hlen]⟩

variable (key) in
/-- What is left keeps its pages. -/
theorem count_remove_le (T : Shape ρ h) (row : ρ) (T' : Shape ρ h)
    (hrest : (T.remove key row).rest = some T') (i : ℕ) :
    T'.indexes.count i ≤ T.indexes.count i := by
  induction h with
  | zero =>
      obtain ⟨id, rows, rfl⟩ := T.exists_leaf
      rw [remove_leaf, shrinkLeaf] at hrest
      split at hrest
      · cases hrest
        exact le_rfl
      · simp only at hrest
        split at hrest
        · cases hrest
        · cases hrest
          exact le_rfl
  | succ h ih =>
      obtain ⟨id, keys, children, rfl⟩ := T.exists_inner
      obtain hremove | ⟨cb, c, ca, rfl, hremove⟩ := remove_inner_cases key id keys children row
      · rw [hremove] at hrest
        cases hrest
        exact le_rfl
      · have hchild := ih c
        rw [hremove] at hrest
        generalize c.remove key row = left at hrest hchild
        -- The pages of a child that is gone, or those that it lost, are the difference.
        obtain ⟨old, _ | c'⟩ := left
        · rw [shrinkAbove_none] at hrest
          simp only at hrest
          split at hrest
          · cases hrest
          · cases hrest
            simp only [indexes_inner, List.flatMap_append, List.flatMap_cons, List.count_cons,
              List.count_append]
            omega
        · have := hchild c' rfl
          rw [shrinkAbove_some] at hrest
          cases hrest
          simp only [indexes_inner, List.flatMap_append, List.flatMap_cons, List.count_cons,
            List.count_append]
          omega

/-! ### Giving way -/

/-- A root that only leads to one child gives way to it, again and again. -/
lemma collapse_yields (T : Shape ρ h) : T.Yields T.collapse := by
  induction h with
  | zero => exact .refl T
  | succ h ih =>
      obtain ⟨id, keys, children, rfl⟩ := T.exists_inner
      match keys, children with
      | [], [c] => exact .step id (ih c)
      | [], [] => exact .refl _
      | [], _ :: _ :: _ => exact .refl _
      | _ :: _, _ => exact .refl _

namespace Yields

variable {T' : TreeShape ρ}

/-- A tree of lesser height with the same rows. -/
lemma rows_eq (hT' : T.Yields T') : T'.rows = T.rows := by
  induction hT' with
  | refl T => rfl
  | step id _ ih => rw [ih, rows_inner, List.flatMap_singleton]

/-- What is left is in order. -/
lemma ordered (hT' : T.Yields T') (hT : T.Ordered key ⊥ ⊤) : T'.Ordered key := by
  induction hT' with
  | refl T => exact hT
  | step id _ ih => exact ih hT

/-- What is left has no page that was not there before. -/
lemma count_le (hT' : T.Yields T') (i : ℕ) : T'.indexes.count i ≤ T.indexes.count i := by
  induction hT' with
  | refl T => exact le_rfl
  | step id _ ih =>
      rw [indexes_inner, List.flatMap_singleton, List.count_cons]
      omega

/-- What is left is no higher. -/
lemma height_le (hT' : T.Yields T') : T'.height ≤ h := by
  induction hT' with
  | refl T => exact le_rfl
  | step id _ ih => exact ih.trans (Nat.le_succ _)

end Yields

/-- Giving way to a child leaves no root without separators. -/
lemma collapse_rooted (hT : T.Ordered key ⊥ ⊤) : T.collapse.top.Rooted := by
  induction h with
  | zero =>
      obtain ⟨id, rows, rfl⟩ := T.exists_leaf
      exact trivial
  | succ h ih =>
      obtain ⟨id, keys, children, rfl⟩ := T.exists_inner
      obtain ⟨c, rfl, rfl⟩ | ⟨k, ks, c, cs, rfl, rfl⟩ := Fenced.cases hT
      · exact ih (T := c) hT
      · exact List.cons_ne_nil k ks

/-- What is left has no empty leaf that was not alone before. -/
lemma Yields.filled {T' : TreeShape ρ} (hT' : T.Yields T') (hT : h ≠ 0 → T.Filled) :
    T'.height ≠ 0 → T'.top.Filled := by
  induction hT' with
  | refl T => exact hT
  | step id _ ih => exact ih fun _ => hT (Nat.succ_ne_zero _) _ List.mem_cons_self

end Shape

/-! ### Whole trees -/

namespace TreeShape

variable {ρ κ : Type} [LinearOrder κ] {key : ρ → κ} {T : TreeShape ρ} {row : ρ}

/-- A row taken out of an ordered tree acts on the map of its rows. -/
theorem remove_ordered (hT : T.Ordered key) (row : ρ) :
    (T.remove key row).2.Ordered key ∧ (T.remove key row).1 = Rows.lookup key row T.rows ∧
      (T.remove key row).2.rows = Rows.erase key row T.rows := by
  have hmeets := Shape.remove_meets hT bot_le (WithTop.coe_lt_top (key row))
  rw [remove]
  generalize T.top.remove key row = left at hmeets
  obtain ⟨old, _ | top⟩ := left
  · exact ⟨⟨List.Pairwise.nil, by simp⟩, hmeets.old, (hmeets.none rfl).symm⟩
  · obtain ⟨-, hordered, hrows, -⟩ := hmeets.some top rfl
    have hyields := top.collapse_yields
    exact ⟨hyields.ordered hordered, hmeets.old, hyields.rows_eq.trans hrows⟩

/-- A row taken out of a dense tree leaves a dense one, with a separator in an inner root. -/
theorem remove_dense (hT : T.Dense key) (row : ρ) :
    (T.remove key row).2.Dense key ∧ (T.remove key row).2.top.Rooted := by
  have hordered := (remove_ordered hT.ordered row).1
  have hmeets := Shape.remove_meets hT.ordered bot_le (WithTop.coe_lt_top (key row))
  rw [remove] at hordered ⊢
  generalize T.top.remove key row = left at hmeets hordered
  obtain ⟨old, _ | top⟩ := left
  · exact ⟨⟨hordered, fun hne => absurd rfl hne⟩, trivial⟩
  · obtain ⟨-, htop, -, hfilled⟩ := hmeets.some top rfl
    exact ⟨⟨hordered, top.collapse_yields.filled fun hne => hfilled (hT.filled hne)⟩,
      Shape.collapse_rooted htop⟩

/-- A row taken out of a tree acts on the map of its rows, and leaves a tree in order. -/
theorem remove_erase (hT : T.Proper key) (row : ρ) :
    (T.remove key row).2.Proper key ∧ (T.remove key row).1 = Rows.lookup key row T.rows ∧
      (T.remove key row).2.rows = Rows.erase key row T.rows := by
  obtain ⟨hdense, hrooted⟩ := remove_dense hT.dense row
  exact ⟨⟨hdense.ordered, hdense.filled, hrooted⟩, (remove_ordered hT.ordered row).2⟩

/-- A whole tree keeps its pages too. -/
lemma count_remove_le (T : TreeShape ρ) (row : ρ) (i : ℕ) :
    (T.remove key row).2.indexes.count i ≤ T.indexes.count i := by
  have hcount := Shape.count_remove_le key T.top row
  rw [remove]
  generalize T.top.remove key row = left at hcount
  obtain ⟨old, _ | top⟩ := left
  · have hsub : [T.top.id.index].Sublist T.indexes :=
      List.singleton_sublist.mpr T.top.index_mem_indexes
    exact hsub.count_le i
  · exact (top.collapse_yields.count_le i).trans (hcount top rfl i)

end TreeShape

end PageCatalog
