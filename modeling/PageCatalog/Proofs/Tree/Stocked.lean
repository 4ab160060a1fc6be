import Mathlib.Tactic
import PageCatalog.Proofs.Tree.Representation

/-!
How full a tree is that rows are only put into.

A node that is cut leaves two that are at least half full, since the cut is made where
the new row or separator evens it out. So every node below the root stays half full as
long as nothing is removed, and a tree of few rows stays low.

* `Shape.Stocked`, `Shape.StockedBelow`: enough in every node, and in those below the
  topmost one.
* `Shape.put_stocked`, `TreeShape.put_stocked`: a row that is put into a shape.
* `Shape.Stocked.le_length`, `TreeShape.le_length`: so many rows stand in a tree of some
  height.
* `RowFormat.Offered`: rows in slots of any width.
* `Tree.Planted`, `Tree.stocked_of_planted`: new trees and the rows put into them.
-/

namespace PageCatalog

/-! ### Shapes -/

namespace Shape

variable {ρ κ : Type} [LinearOrder κ] {R : RowFormat ρ} {key : ρ → κ} {size : ℕ} {h : ℕ}
  {lo : WithBot κ} {hi : WithTop κ} {id : PageId} {row : ρ} {rows keys : List ρ} {T : Shape ρ h}
  {children : List (Shape ρ h)} {next n i a b : ℕ}

/-- Every leaf has `a` rows or more, and every inner node has `b` separators or more. -/
def Stocked (a b : ℕ) : {h : ℕ} → Shape ρ h → Prop
  | 0, leaf _ rows => a ≤ rows.length
  | _ + 1, inner _ keys children => b ≤ keys.length ∧ ∀ c ∈ children, Stocked a b c

/-- So has every node below the topmost one. -/
def StockedBelow (a b : ℕ) : {h : ℕ} → Shape ρ h → Prop
  | 0, _ => True
  | _ + 1, inner _ _ children => ∀ c ∈ children, c.Stocked a b

@[simp] lemma stocked_leaf : (leaf id rows).Stocked a b ↔ a ≤ rows.length := Iff.rfl

@[simp] lemma stocked_inner :
    (inner id keys children).Stocked a b ↔ b ≤ keys.length ∧ ∀ c ∈ children, c.Stocked a b :=
  Iff.rfl

@[simp] lemma stockedBelow_inner :
    (inner id keys children).StockedBelow a b ↔ ∀ c ∈ children, c.Stocked a b :=
  Iff.rfl

lemma Stocked.below (hT : T.Stocked a b) : T.StockedBelow a b := by
  cases h with
  | zero => trivial
  | succ h => exact hT.2

/-- Of a full node and one key more, each side of the cut gets half of the keys, even if one
of them moves up between the two. -/
lemma half_le_cutPoint (hi : i ≤ n) :
    n / 2 ≤ cutPoint n i ∧ n / 2 ≤ n + 1 - cutPoint n i ∧ (n - 1) / 2 ≤ n - cutPoint n i := by
  unfold cutPoint
  split <;> omega

end Shape

/-- What a row has made of a shape, if its nodes were stocked. Nothing is said of a shape
that is left short, since the row was not put into it then. -/
def Grown.Stocks {ρ : Type} {h : ℕ} (a b : ℕ) (T : Shape ρ h) : Grown ρ h → Prop
  | .whole _ T' => T'.StockedBelow a b ∧ (T.Stocked a b → T'.Stocked a b)
  | .cut l _ r => l.Stocked a b ∧ r.Stocked a b
  | .short _ => True

namespace Shape

variable {ρ κ : Type} [LinearOrder κ] (R : RowFormat ρ) {key : ρ → κ} (size : ℕ) {h : ℕ}
  {lo : WithBot κ} {hi : WithTop κ} {id : PageId} {row sep : ρ} {rows keys : List ρ}
  {T c l r : Shape ρ h} {cb ca : List (Shape ρ h)} {next n i a b : ℕ}

/-- A leaf that is full is cut into two that are half full. -/
lemma growLeaf_stocked (id : PageId) (rows : List ρ) (row : ρ) (next b : ℕ) :
    (growLeaf R key size id rows row next).1.Stocks (R.leaf.capacity size / 2) b (leaf id rows) := by
  rw [growLeaf]
  split
  · exact ⟨trivial, fun hrows => by simpa using hrows⟩
  · rename_i i hat
    have hi := Rows.place_gap_le hat
    have hlen : (rows.insertIdx i row).length = rows.length + 1 :=
      List.length_insertIdx_of_le_length hi row
    simp only
    split
    · refine ⟨trivial, fun hrows => ?_⟩
      rw [stocked_leaf] at hrows ⊢
      omega
    · rename_i hfull
      split
      · trivial
      · obtain ⟨hleft, hright, -⟩ := half_le_cutPoint hi
        have hhalf : R.leaf.capacity size / 2 ≤ rows.length / 2 :=
          Nat.div_le_div_right (Nat.not_lt.mp hfull)
        refine ⟨?_, ?_⟩
        · rw [stocked_leaf, List.length_take, hlen]
          omega
        · rw [stocked_leaf, List.length_drop, hlen]
          omega

/-- An inner node that is full is cut into two that are half full. -/
lemma growInner_stocked (id : PageId) (keys : List ρ) (c : Shape ρ h) (sep : ρ) (next : ℕ)
    (hlen : cb.length ≤ keys.length)
    (hparts : ∀ d ∈ cb ++ [l, r] ++ ca, d.Stocked a ((R.inner.capacity size - 1) / 2)) :
    (growInner R size id keys (cb ++ c :: ca) cb.length l sep r next).1.Stocks a
      ((R.inner.capacity size - 1) / 2) (inner id keys (cb ++ c :: ca)) := by
  have hseps : (keys.insertIdx cb.length sep).length = keys.length + 1 :=
    List.length_insertIdx_of_le_length hlen sep
  rw [growInner_middle]
  simp only
  split
  · refine ⟨hparts, fun hstocked => ⟨?_, hparts⟩⟩
    have := hstocked.1
    omega
  · rename_i hfull
    split
    · trivial
    · -- one separator goes up, so the halves share one fewer than there are
      obtain ⟨hleft, -, hright⟩ := half_le_cutPoint hlen
      have hhalf : (R.inner.capacity size - 1) / 2 ≤ (keys.length - 1) / 2 :=
        Nat.div_le_div_right (by omega)
      refine ⟨⟨?_, fun d hd => hparts d (List.mem_of_mem_take hd)⟩,
        ?_, fun d hd => hparts d (List.mem_of_mem_drop hd)⟩
      · rw [List.length_take, hseps]
        omega
      · rw [List.length_drop, hseps]
        omega

/-- A row put into a shape leaves the nodes below the topmost one at least half full, and the
topmost one too if it was so or if it is cut. -/
theorem put_stocked (T : Shape ρ h) (hT : T.Ordered key lo hi) (hlo : lo ≤ key row)
    (hhi : key row < hi) (next : ℕ)
    (hbelow : T.StockedBelow (R.leaf.capacity size / 2) ((R.inner.capacity size - 1) / 2)) :
    (T.put R key size row next).1.Stocks (R.leaf.capacity size / 2)
      ((R.inner.capacity size - 1) / 2) T := by
  induction h generalizing lo hi with
  | zero =>
      obtain ⟨id, rows, rfl⟩ := T.exists_leaf
      exact growLeaf_stocked R size id rows row next _
  | succ h ih =>
      obtain ⟨id, keys, children, rfl⟩ := T.exists_inner
      obtain ⟨kb, ka, cb, c, ca, rfl, rfl, hroute⟩ := Fenced.exists_route hT hlo hhi
      obtain ⟨lo', hi', hc, hlo', hhi', -⟩ := hroute.child
      have hstocked := hbelow c (by simp)
      -- Whatever stands in place of the child, the nodes beside it are as full as before.
      have hmiddle : ∀ cm : List (Shape ρ h),
          (∀ d ∈ cm, d.Stocked (R.leaf.capacity size / 2) ((R.inner.capacity size - 1) / 2)) →
          ∀ d ∈ cb ++ cm ++ ca,
            d.Stocked (R.leaf.capacity size / 2) ((R.inner.capacity size - 1) / 2) := by
        intro cm hcm d hd
        rcases List.mem_append.mp hd with hd | hd
        · rcases List.mem_append.mp hd with hd | hd
          · exact hbelow d (by simp [hd])
          · exact hcm d hd
        · exact hbelow d (by simp [hd])
      have hchild := ih c hc hlo' hhi' hstocked.below
      rw [put_route R hroute]
      generalize put R key size row c next = grown at hchild
      -- A child that was not cut has no fewer keys; the halves of one that was cut are half full.
      -- A child left short is not looked at.
      obtain ⟨⟨old, c'⟩ | ⟨l, sep, r⟩ | c', next'⟩ := grown
      · have hchildren := hmiddle [c'] (by simpa using hchild.2 hstocked)
        rw [List.append_assoc, List.singleton_append] at hchildren
        rw [growAbove, set_middle]
        exact ⟨hchildren, fun hnode => ⟨hnode.1, hchildren⟩⟩
      · have hlen := hroute.length
        exact growInner_stocked R size id (kb ++ ka) c sep next'
          (by rw [List.length_append]; omega) (hmiddle [l, r] (by simp [hchild.1, hchild.2]))
      · trivial

/-! ### Rows -/

omit R size in
lemma mul_le_length_flatMap {children : List (Shape ρ h)} {m : ℕ}
    (hchildren : ∀ c ∈ children, m ≤ c.rows.length) :
    children.length * m ≤ (children.flatMap Shape.rows).length := by
  induction children with
  | nil => simp
  | cons c cs ih =>
      have hc := hchildren c List.mem_cons_self
      have hcs := ih fun d hd => hchildren d (List.mem_cons_of_mem c hd)
      rw [List.flatMap_cons, List.length_append, List.length_cons, Nat.succ_mul]
      omega

omit R size in
/-- A stocked shape has more rows with every level. -/
theorem Stocked.le_length (hT : T.Stocked a b) (hordered : T.Ordered key lo hi) :
    (b + 1) ^ h * a ≤ T.rows.length := by
  induction h generalizing lo hi with
  | zero =>
      obtain ⟨id, rows, rfl⟩ := T.exists_leaf
      simpa using hT
  | succ h ih =>
      obtain ⟨id, keys, children, rfl⟩ := T.exists_inner
      obtain ⟨hkeys, hchildren⟩ := hT
      have hlen : children.length = keys.length + 1 := Fenced.length hordered
      have hrows : ∀ c ∈ children, (b + 1) ^ h * a ≤ c.rows.length := by
        intro c hc
        obtain ⟨lo', hi', hc', -⟩ := Fenced.of_mem hordered hc
        exact ih (hchildren c hc) hc'
      calc (b + 1) ^ (h + 1) * a = (b + 1) * ((b + 1) ^ h * a) := by ring
        _ ≤ children.length * ((b + 1) ^ h * a) := Nat.mul_le_mul_right _ (by omega)
        _ ≤ (inner id keys children).rows.length := mul_le_length_flatMap hrows

end Shape

namespace TreeShape

variable {ρ κ : Type} [LinearOrder κ] {R : RowFormat ρ} {key : ρ → κ} {size : ℕ} {T : TreeShape ρ}
  {row : ρ} {next a b : ℕ}

/-- A row that is put into a tree leaves the nodes below the root at least half full. -/
theorem put_stocked (hT : T.Ordered key)
    (hbelow : T.top.StockedBelow (R.leaf.capacity size / 2) ((R.inner.capacity size - 1) / 2))
    {old : Option ρ} (hold : (T.put R key size row next).old = some old) :
    (T.put R key size row next).tree.top.StockedBelow (R.leaf.capacity size / 2)
      ((R.inner.capacity size - 1) / 2) := by
  have hstocks : (T.top.put R key size row next).1.Stocks _ _ T.top :=
    T.top.put_stocked R size hT bot_le (WithTop.coe_lt_top _) next hbelow
  rw [put] at hold ⊢
  generalize T.top.put R key size row next = grown at hstocks hold
  obtain ⟨⟨old', top⟩ | ⟨l, sep, r⟩ | top, next'⟩ := grown
  · exact hstocks.1
  · simp only at hold ⊢
    split at hold
    · cases hold
    · rename_i hnext
      rw [if_neg hnext]
      change ∀ c ∈ [l, r], c.Stocked _ _
      simp [hstocks.1, hstocks.2]
  · cases hold

/-- A root with a separator has two children, and they are stocked. -/
theorem le_length (hT : T.Proper key) (hbelow : T.top.StockedBelow a b) (hheight : 1 ≤ T.height) :
    2 * (b + 1) ^ (T.height - 1) * a ≤ T.rows.length := by
  obtain ⟨height, top⟩ := T
  obtain ⟨height, rfl⟩ : ∃ h, height = h + 1 := ⟨height - 1, by simp only at hheight; omega⟩
  obtain ⟨id, keys, children, rfl⟩ := top.exists_inner
  have hfenced : Fenced key (Shape.Ordered key) ⊥ ⊤ keys children := hT.ordered
  have hkeys : 0 < keys.length := List.length_pos_iff.mpr hT.rooted
  have hlen := hfenced.length
  have hrows : ∀ c ∈ children, (b + 1) ^ height * a ≤ c.rows.length := by
    intro c hc
    obtain ⟨lo', hi', hc', -⟩ := hfenced.of_mem hc
    exact (hbelow c hc).le_length hc'
  calc 2 * (b + 1) ^ (height + 1 - 1) * a = 2 * ((b + 1) ^ height * a) := by
        rw [Nat.add_sub_cancel]; ring
    _ ≤ children.length * ((b + 1) ^ height * a) := Nat.mul_le_mul_right _ (by omega)
    _ ≤ (children.flatMap Shape.rows).length := Shape.mul_le_length_flatMap hrows

end TreeShape

/-! ### Rows in slots of any width -/

/-- Entries of the directory, and numbers in slots of any width that they fit into. -/
inductive RowFormat.Offered : {ρ κ : Type} → [LinearOrder κ] → RowFormat ρ → (ρ → κ) → Prop
  | entries : Offered RowFormat.entries Entry.key
  | keys (width : ℕ) (hwidth : 8 ≤ width) : Offered (RowFormat.keys width) RowFormat.keyOrder

namespace RowFormat.Offered

variable {ρ κ : Type} [LinearOrder κ] {R : RowFormat ρ} {key : ρ → κ}

lemma lawful (h : R.Offered key) : R.Lawful key := by
  cases h with
  | entries => exact entries_lawful
  | keys width hwidth => exact keys_lawful hwidth

/-- Slots are so wide that nodes cannot be cut only where half of a node is nothing. -/
lemma roomy_or (h : R.Offered key) {size : ℕ} (hsize : 512 ≤ size) :
    R.Roomy size ∨ R.leaf.capacity size / 2 = 0 ∧ (R.inner.capacity size - 1) / 2 = 0 := by
  have hwidth : ∀ width, 0 < width → 2 ≤ (size - 16) / width ∧ 1 ≤ (size - 16 - 8) / (width + 8) ∨
      (size - 16) / width / 2 = 0 ∧ ((size - 16 - 8) / (width + 8) - 1) / 2 = 0 := by
    intro width hpos
    by_cases htwo : 2 * width ≤ size - 16
    · exact .inl ⟨(Nat.le_div_iff_mul_le hpos).mpr htwo,
        (Nat.le_div_iff_mul_le (by omega)).mpr (by omega)⟩
    · have hleaf : (size - 16) / width < 2 := (Nat.div_lt_iff_lt_mul hpos).mpr (by omega)
      have hinner : (size - 16 - 8) / (width + 8) < 2 :=
        (Nat.div_lt_iff_lt_mul (by omega)).mpr (by omega)
      exact .inr ⟨Nat.div_eq_of_lt hleaf, Nat.div_eq_of_lt (by omega)⟩
  cases h with
  | entries => exact (hwidth 73 (by decide)).imp_left fun h => ⟨h.1, h.2⟩
  | keys width hle => exact (hwidth width (by omega)).imp_left fun h => ⟨h.1, h.2⟩

end RowFormat.Offered

/-! ### Trees -/

namespace Tree

variable {ρ κ δ : Type} [Device δ]

/-- Of leaves with room for `L` rows and inner nodes with room for `I` separators, every one
below the root that links lead to is at least half full, and a tree of some height has many
rows. -/
structure Stocked (t : Tree ρ) (L I : ℕ) (s : Session δ) : Prop where
  leaf : ∀ {root id : PageId} {n : ℕ} {rows : List ρ}, (t.root s).1 = .ok root →
    t.Reaches s n root id → id ≠ root → t.nodeAt s id = .ok (.leaf rows) → L / 2 ≤ rows.length
  inner : ∀ {root id : PageId} {n : ℕ} {keys : List ρ} {links : List PageId},
    (t.root s).1 = .ok root → t.Reaches s n root id → id ≠ root →
    t.nodeAt s id = .ok (.inner keys links) → (I - 1) / 2 ≤ keys.length
  size : ∀ {level count : ℕ}, (t.level s).1 = .ok level → 1 ≤ level → (t.size s).1 = .ok count →
    2 * ((I + 1) / 2) ^ (level - 1) * (L / 2) ≤ count

/-- Rows were put one after the other, and no call failed. -/
inductive Planted (t : Tree ρ) (s : Session δ) : Session δ → Prop
  | refl : Planted t s s
  | put {s' s'' : Session δ} {row : ρ} {old : Option ρ} (hbefore : Planted t s s')
      (hput : t.put row s' = (.ok old, s'')) : Planted t s s''

variable [LinearOrder κ] {t : Tree ρ} {key : ρ → κ} {s₀ s s' : Session δ} {T : TreeShape ρ} {L I : ℕ}

/-- A part of a held tree whose nodes below the root are stocked is stocked unless it is
the whole. -/
lemma Holds.stocked_part (hR : t.rows.Lawful key) (hT : t.Holds (.none δ) s T) {a b : ℕ}
    (hbelow : T.top.StockedBelow a b) {n : ℕ} {id : PageId} (hreach : t.Reaches s n T.top.id id)
    (hne : id ≠ T.top.id) :
    ∃ h, ∃ S : Shape ρ h, S.id = id ∧ S.Stored (.none δ) t.rows t.cache s ∧ S.Stocked a b := by
  obtain ⟨h, S, -, rfl, hS, -, hstocked⟩ := exists_part hR
    (fun S => S.StockedBelow a b ∧ (S.id ≠ T.top.id → S.Stocked a b))
    (fun _ _ _ hS c hc => ⟨(hS.1 c hc).below, fun _ => hS.1 c hc⟩) T.top hT.stored
    ⟨hbelow, fun h => absurd rfl h⟩ hreach
  exact ⟨h, S, rfl, hS, hstocked hne⟩

/-- A held tree is stocked if its shape is. -/
lemma Holds.stocked (hR : t.rows.Lawful key) (hT : t.Holds (.none δ) s T) (hproper : T.Proper key)
    (hbelow : T.top.StockedBelow (L / 2) ((I - 1) / 2)) : t.Stocked L I s := by
  have hroot : ∀ {root}, (t.root s).1 = .ok root → root = T.top.id := fun hrun =>
    (hT.root_ends.ok (Prod.ext hrun rfl)).1
  -- What links lead to is a part of the shape, and no part but the whole one is its root.
  constructor
  case leaf =>
    intro root id n rows hrun hreach hne hnode
    obtain rfl := hroot hrun
    obtain ⟨h, S, rfl, hS, hstocked⟩ := hT.stocked_part hR hbelow hreach hne
    obtain ⟨rfl, rfl⟩ := exists_leaf_of_nodeAt hR hS hnode
    exact hstocked
  case inner =>
    intro root id n keys links hrun hreach hne hnode
    obtain rfl := hroot hrun
    obtain ⟨h, S, rfl, hS, hstocked⟩ := hT.stocked_part hR hbelow hreach hne
    cases h with
    | zero =>
        obtain ⟨id, rows, rfl⟩ := S.exists_leaf
        rw [Shape.id_leaf, nodeAt_leaf hS] at hnode
        cases hnode
    | succ h =>
        obtain ⟨id, keys', children, rfl⟩ := S.exists_inner
        rw [Shape.id_inner, nodeAt_inner hR hS] at hnode
        cases hnode
        exact hstocked.1
  case size =>
    intro level count hlevel hone hsize
    obtain ⟨rfl, -⟩ := hT.level_ends.ok (Prod.ext hlevel rfl)
    obtain ⟨rfl, -⟩ := (hT.size_ends hR hproper.ordered).ok (Prod.ext hsize rfl)
    refine le_trans ?_ (TreeShape.le_length hproper hbelow hone)
    exact Nat.mul_le_mul_right _ (Nat.mul_le_mul_left _ (Nat.pow_le_pow_left (by omega) _))

omit [LinearOrder κ] in
/-- Where half of a node is nothing, every tree is stocked. -/
lemma stocked_of_half_eq_zero (hleaf : L / 2 = 0) (hinner : (I - 1) / 2 = 0) (s : Session δ) :
    t.Stocked L I s where
  leaf _ _ _ _ := by rw [hleaf]; exact Nat.zero_le _
  inner _ _ _ _ := by rw [hinner]; exact Nat.zero_le _
  size _ _ _ := by rw [hleaf, Nat.mul_zero]; exact Nat.zero_le _

/-- Rows that are put into a tree leave the nodes below the root at least half full. -/
lemma Planted.holds (hR : t.rows.Lawful key) (hroomy : t.rows.Roomy s.size) (h : t.Planted s s')
    (hs : ∃ T, t.Holds (.none δ) s T ∧ T.Proper key ∧ T.top.StockedBelow
      (t.rows.leaf.capacity s.size / 2) ((t.rows.inner.capacity s.size - 1) / 2)) :
    s'.size = s.size ∧ ∃ T, t.Holds (.none δ) s' T ∧ T.Proper key ∧ T.top.StockedBelow
      (t.rows.leaf.capacity s.size / 2) ((t.rows.inner.capacity s.size - 1) / 2) := by
  induction h with
  | refl => exact ⟨rfl, hs⟩
  | put _ hput ih =>
      obtain ⟨hsize, T, hT, hproper, hbelow⟩ := ih
      rw [← hsize] at hroomy hbelow
      obtain ⟨n, hn⟩ := hT.exists_next
      obtain ⟨-, hold, hbecomes⟩ := (hT.put_ends hR hroomy hproper.ordered _ hn).ok hput
      refine ⟨hbecomes.keeps.size.trans hsize, _, hbecomes.holds,
        (TreeShape.put_insert t.rows hroomy hproper hold).1, ?_⟩
      rw [← hsize]
      exact TreeShape.put_stocked hproper.ordered hbelow hold

/-- With the pages of a tree in memory, its root, its level and its size are known without
fail. -/
lemma Holds.knows (hR : t.rows.Lawful key) (hT : t.Holds (.none δ) s T) (hproper : T.Proper key) :
    (∃ root, (t.root s).1 = .ok root) ∧ (∃ level, (t.level s).1 = .ok level) ∧
      ∃ count, (t.size s).1 = .ok count := by
  have hnone : ∀ {e}, ¬ (Backing.none δ).Fails e := fun ⟨_, _, _, _, _, hhas, _⟩ => hhas
  have hanswers : ∀ {α : Type} {m : SessionM δ α} {Q F}, Ends m s Q F → (∀ e s', F e s' → False) →
      ∃ a, (m s).1 = .ok a := by
    intro α m Q F hends hF
    rcases hrun : m s with ⟨e | a, s'⟩
    · exact (hF e s' (hends.error hrun)).elim
    · exact ⟨a, rfl⟩
  exact ⟨hanswers hT.root_ends fun _ _ h => hnone h.1, hanswers hT.level_ends fun _ _ h => hnone h.1,
    hanswers (hT.size_ends hR hproper.ordered) fun _ _ h => hnone h⟩

/-- From a new tree on, as long as rows are only put and no call fails, every node below the
root is at least half full, and the tree is low. Root, level and size are there to be asked
for, unless slots are so wide that a node cannot be cut. -/
theorem stocked_of_planted (hR : t.rows.Offered key) (husual : 512 ≤ s₀.size ∧ s₀.size ≤ 65536)
    (hstart : t.start (some true) s₀ = (.ok (), s)) (hplanted : t.Planted s s') :
    t.Stocked (t.rows.leaf.capacity s.size) (t.rows.inner.capacity s.size) s' ∧
      (t.rows.Roomy s.size → (∃ root, (t.root s').1 = .ok root) ∧
        (∃ level, (t.level s').1 = .ok level) ∧ ∃ count, (t.size s').1 = .ok count) := by
  obtain ⟨n, -, hT⟩ := start_new hR.lawful husual hstart
  have hholds := fun hroomy : t.rows.Roomy s.size => hplanted.holds hR.lawful hroomy
    ⟨_, hT, ⟨⟨List.Pairwise.nil, by simp⟩, fun hne => absurd rfl hne, trivial⟩, trivial⟩
  refine ⟨?_, fun hroomy => ?_⟩
  · obtain hroomy | ⟨hleaf, hinner⟩ := hR.roomy_or hT.size.1
    · obtain ⟨-, T, hT', hproper, hbelow⟩ := hholds hroomy
      exact hT'.stocked hR.lawful hproper hbelow
    · exact stocked_of_half_eq_zero hleaf hinner s'
  · obtain ⟨-, T, hT', hproper, -⟩ := hholds hroomy
    exact hT'.knows hR.lawful hproper

/-- Three numbers do not fit into one leaf of two, and so there are a root and two leaves. -/
theorem stocked_after_three_puts :
    ∃ s s' : Session MemoryDisk, numbers.start (some true) .blank = (.ok (), s) ∧
      numbers.Planted s s' ∧ (numbers.level s').1 = .ok 1 ∧ (numbers.size s').1 = .ok 3 ∧
      numbers.Stocked 2 1 s' := by
  -- the session is hidden, so that nothing evaluates it again
  obtain ⟨s, s₁, s₂, s₃, hstart, ⟨_, hfirst⟩, ⟨_, hsecond⟩, ⟨_, hthird⟩, hlevel, hcount, hsize⟩ :
      ∃ s s₁ s₂ s₃ : Session MemoryDisk, numbers.start (some true) .blank = (.ok (), s) ∧
        (∃ old, numbers.put 7 s = (.ok old, s₁)) ∧ (∃ old, numbers.put 3 s₁ = (.ok old, s₂)) ∧
        (∃ old, numbers.put 5 s₂ = (.ok old, s₃)) ∧ (numbers.level s₃).1 = .ok 1 ∧
        (numbers.size s₃).1 = .ok 3 ∧ s.size = 512 := by
    have hruns :
        let s : Session MemoryDisk := (numbers.start (some true) .blank).2
        let s₁ := (numbers.put 7 s).2
        let s₂ := (numbers.put 3 s₁).2
        let s₃ := (numbers.put 5 s₂).2
        (numbers.start (some true) (.blank : Session MemoryDisk)).1.isOk = true ∧
          (numbers.put 7 s).1.isOk = true ∧ (numbers.put 3 s₁).1.isOk = true ∧
          (numbers.put 5 s₂).1.isOk = true ∧ (numbers.level s₃).1 = .ok 1 ∧
          (numbers.size s₃).1 = .ok 3 ∧ s.size = 512 := by
      decide +kernel
    obtain ⟨hstart, hfirst, hsecond, hthird, hlevel, hcount, hsize⟩ := hruns
    obtain ⟨⟨⟩, hstart⟩ := run_of_isOk hstart
    exact ⟨_, _, _, _, hstart, run_of_isOk hfirst, run_of_isOk hsecond, run_of_isOk hthird, hlevel, hcount,
      hsize⟩
  have hplanted := ((Planted.refl.put hfirst).put hsecond).put hthird
  have hstocked := (stocked_of_planted (.keys 240 (by decide)) (by decide) hstart hplanted).1
  rw [hsize] at hstocked
  exact ⟨s, s₃, hstart, hplanted, hlevel, hcount, hstocked⟩

end Tree

end PageCatalog
