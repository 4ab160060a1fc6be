import Mathlib.Tactic
import PageCatalog.Proofs.Tree.Damaged

/-!
Searches in a node are exact.

Ascending rows leave one place for a row: where a row of its key stands, or between the
smaller rows and the greater ones. A search in a node comes to that place, and whatever is in
the slots, it comes to some place.

* `Rows.Placed.found_iff`, `gap_iff`, `childAt_eq`: the place of a row, said of the rows.
* `Position.Exact`: the same in terms of an order of rows.
* `RowFormat.OrderedBy`: the formats of rows, with their orders.
* `Tree.search_exact`: searches.
-/

namespace PageCatalog

/-! ### Places -/

namespace Rows

variable {ρ κ : Type} [LinearOrder κ] {key : ρ → κ} {row : ρ} {rows : List ρ} {at_ : Position}

/-- A row is found where one of its key stands, and only there. -/
lemma Placed.found_iff (h : Placed key row rows at_) (hasc : Ascending key rows) (i : ℕ) :
    at_ = .found i ↔ ∃ r, rows[i]? = some r ∧ key r = key row := by
  constructor
  · rintro rfl
    cases h with
    | @found before after r hkey _ => exact ⟨r, by simp, hkey⟩
  · rintro ⟨r, hr, hkey⟩
    obtain ⟨hi, rfl⟩ := List.getElem?_eq_some_iff.mp hr
    exact h.place_eq.symm.trans (hasc.placed_getElem hi hkey).place_eq

/-- A row is missed where it comes between the smaller rows and the greater ones. -/
lemma Placed.gap_iff (h : Placed key row rows at_) (i : ℕ) :
    at_ = .gap i ↔ i ≤ rows.length ∧ Around key row (rows.take i) (rows.drop i) := by
  constructor
  · rintro rfl
    cases h with
    | @gap before after h => exact ⟨by simp, by simpa using h⟩
  · rintro ⟨hi, haround⟩
    exact h.place_eq.symm.trans (Placed.of_drop hi haround).place_eq

/-- The child behind the place of a row is behind as many rows as are at most the row. -/
lemma Placed.childAt_eq (h : Placed key row rows at_) :
    Tree.childAt at_ = rows.countP fun r => key r ≤ key row := by
  have hall : ∀ before : List ρ, (∀ r ∈ before, key r < key row) →
      before.countP (fun r => key r ≤ key row) = before.length := fun before hbefore =>
    List.countP_eq_length.mpr fun r hr => by simpa using (hbefore r hr).le
  have hnone : ∀ after : List ρ, (∀ r ∈ after, key row < key r) →
      after.countP (fun r => key r ≤ key row) = 0 := fun after hafter =>
    List.countP_eq_zero.mpr fun r hr => by simpa using hafter r hr
  cases h with
  | @found before after r hkey h =>
      rw [List.countP_append, hall before h.before, List.countP_cons, hnone after h.after,
        if_pos (by simpa using hkey.le)]
      rfl
  | @gap before after h =>
      rw [List.countP_append, hall before h.before, hnone after h.after]
      rfl

end Rows

/-- A place among rows is the right one for a row. A row equal to it stands there; or the rows
before the place are smaller and the others greater. And the child behind the place is behind
as many rows as are at most the row. -/
structure Position.Exact {ρ : Type} (order : ρ → ρ → Ordering) (row : ρ) (rows : List ρ)
    (at_ : Position) : Prop where
  found : ∀ i, at_ = .found i ↔ ∃ r, rows[i]? = some r ∧ order r row = .eq
  gap : ∀ i, at_ = .gap i ↔
    i ≤ rows.length ∧ (∀ r ∈ rows.take i, order r row = .lt) ∧ ∀ r ∈ rows.drop i, order r row = .gt
  child : Tree.childAt at_ = rows.countP fun r => order r row ≠ .gt

namespace Rows

variable {ρ κ : Type} [LinearOrder κ] {key : ρ → κ} {order : ρ → ρ → Ordering} {row : ρ}
  {rows : List ρ} {at_ : Position}

/-- Rows that ascend in an order ascend by their keys. -/
lemma ascending_of_order (horder : ∀ a b, (order a b).Compares (key a) (key b))
    (h : rows.Pairwise fun a b => order a b = .lt) : Ascending key rows :=
  h.imp fun {a b} hlt => (horder a b).eq_lt.mp hlt

lemma Placed.exact (horder : ∀ a b, (order a b).Compares (key a) (key b))
    (h : Placed key row rows at_) (hasc : Ascending key rows) : at_.Exact order row rows where
  found i := by
    simp only [(horder _ _).eq_eq]
    exact h.found_iff hasc i
  gap i := by
    simp only [(horder _ _).eq_lt, (horder _ _).eq_gt]
    rw [h.gap_iff i]
    exact and_congr_right fun _ => ⟨fun h => ⟨h.before, h.after⟩, fun h => ⟨h.1, h.2⟩⟩
  child := by
    simp only [(horder _ _).ne_gt]
    exact h.childAt_eq

end Rows

/-! ### Formats -/

/-- The formats of rows with the orders of their rows: entries of the directory by name, and
numbers by size, in slots that hold them. -/
inductive RowFormat.OrderedBy : {ρ : Type} → RowFormat ρ → (ρ → ρ → Ordering) → Prop
  | entries : OrderedBy RowFormat.entries Entry.order
  | keys (width : ℕ) (hwidth : 8 ≤ width) :
      OrderedBy (RowFormat.keys width) fun a b => compare a.toNat b.toNat

namespace RowFormat.OrderedBy

variable {ρ : Type} {R : RowFormat ρ} {order : ρ → ρ → Ordering}

/-- The order of a format is that of keys by which it keeps its promises. -/
lemma exists_key (h : R.OrderedBy order) : ∃ (κ : Type) (_ : LinearOrder κ) (key : ρ → κ),
    R.Lawful key ∧ ∀ a b, (order a b).Compares (key a) (key b) := by
  cases h with
  | entries => exact ⟨_, _, Entry.key, entries_lawful, fun a b => Bytes.order_compares _ _⟩
  | keys width hwidth =>
      exact ⟨_, _, keyOrder, keys_lawful hwidth, fun a b => (compare_iff _ _).mp rfl⟩

lemma contained (h : R.OrderedBy order) : R.Contained := by
  cases h with
  | entries => exact Entry.contained
  | keys width hwidth => exact keys_contained hwidth

end RowFormat.OrderedBy

/-! ### Searches -/

namespace Tree

variable {ρ : Type} {t : Tree ρ} {order : ρ → ρ → Ordering} {L : NodeLayout} {p : Page} {n : ℕ}

/-- A search in a node ends at a place among its slots, whatever is in them. If the slots hold
ascending rows, it is the right one for the row, however that row looks. -/
theorem search_exact (hR : t.rows.OrderedBy order) (hL : L ∈ [t.rows.leaf, t.rows.inner])
    (hcount : Node.count p = .ok n) (hroom : n ≤ L.capacity p.size) (row : ρ) :
    ∃ at_, t.search L p row = .ok at_ ∧ at_.Within n ∧
      ∀ rows : List ρ, rows.length = n → t.rows.SlotsHold L rows p →
        (rows.Pairwise fun a b => order a b = .lt) → at_.Exact order row rows := by
  obtain ⟨κ, _, key, hlawful, horder⟩ := hR.exists_key
  have hwidth : L.width = t.rows.leaf.width := by
    rcases List.mem_pair.mp hL with rfl | rfl
    · rfl
    · exact hlawful.inner_width
  obtain ⟨at_, hbetween, hwithin⟩ :=
    exists_searchBetween hR.contained hwidth hroom row n 0 n (Nat.zero_le _) le_rfl
  have hsearch : t.search L p row = .ok at_ := by
    rw [search, hcount]
    exact hbetween
  refine ⟨at_, hsearch, hwithin, fun rows hlen hslots hasc => ?_⟩
  have hasc' := Rows.ascending_of_order horder hasc
  have hplace := t.search_eq hlawful (hlen ▸ hcount) hslots hasc' row
  obtain rfl := Except.ok.inj (hsearch.symm.trans hplace)
  exact (hasc'.placed row).exact horder hasc'

/-- Three names in an inner node, with what an older row has left behind them: a name longer than
any that fits comes behind the first one, and the second one is found. -/
theorem search_exact_of_longName :
    let t : Tree Entry := ⟨"names", 1, .entries⟩
    let slot (name : Bytes) := Entry.encode ⟨name, ⟨7⟩⟩ ++ List.replicate (64 - name.length) 255
    let p := Page.ofBytes (Bytes.ofNat 4 0 ++ Bytes.ofNat 2 3 ++ List.replicate 10 0 ++ slot [97]
      ++ slot [97, 98] ++ slot [98] ++ List.replicate 32 255)
    (∃ at_, t.search t.rows.inner p ⟨List.replicate 70 97, ⟨0⟩⟩ = .ok at_ ∧ at_ = .gap 1) ∧
      ∃ at_, t.search t.rows.inner p ⟨[97, 98], ⟨0⟩⟩ = .ok at_ ∧ at_ = .found 1 ∧
        childAt at_ = 2 := by
  intro t slot p
  have hR : t.rows.OrderedBy Entry.order := .entries
  have hcount : Node.count p = .ok 3 := by decide +kernel
  have hroom : 3 ≤ t.rows.inner.capacity p.size := by decide +kernel
  have hslots : t.rows.SlotsHold t.rows.inner [⟨[97], ⟨7⟩⟩, ⟨[97, 98], ⟨7⟩⟩, ⟨[98], ⟨7⟩⟩] p := by
    intro i row hrow
    match i, hrow with
    | 0, rfl => decide +kernel
    | 1, rfl => decide +kernel
    | 2, rfl => decide +kernel
  have hsearch := fun row =>
    search_exact hR (List.mem_cons_of_mem _ List.mem_cons_self) hcount hroom row
  constructor
  · obtain ⟨at_, hat, -, hexact⟩ := hsearch ⟨List.replicate 70 97, ⟨0⟩⟩
    exact ⟨at_, hat, ((hexact _ rfl hslots (by decide)).gap 1).mpr (by decide)⟩
  · obtain ⟨at_, hat, -, hexact⟩ := hsearch ⟨[97, 98], ⟨0⟩⟩
    have hright := hexact _ rfl hslots (by decide)
    exact ⟨at_, hat, (hright.found 1).mpr ⟨_, rfl, by decide⟩, hright.child.trans (by decide)⟩

end Tree

end PageCatalog
