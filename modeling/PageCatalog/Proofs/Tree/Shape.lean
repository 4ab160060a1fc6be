import Mathlib.Tactic
import Mathlib.Order.WithBot
import PageCatalog.Proofs.Rows.Sorted

/-!
Shapes of trees.

A shape is what a tree looks like apart from the bytes of its pages: leaves with their
rows, and inner nodes with their separators and children, all leaves equally deep. The
children of an inner node alternate with its separators, and each child keeps between
the two beside it.

* `Shape`: the part of a tree below a node; `Shape.rows`, `Shape.indexes`.
* `Fenced`: children between separators; `fenced_append`, `Fenced.cut`, `Fenced.erase`.
* `Route`, `Fenced.exists_route`: the child on the way to a row, and what may stand in
  its place.
* `Shape.Ordered`, `Shape.Filled`: order, and leaves that are not empty.
-/

namespace PageCatalog

/-! ### Shapes -/

/-- A leaf: its page and its rows. -/
structure LeafShape (ρ : Type) where
  id : PageId
  rows : List ρ

/-- An inner node: its page, its separators and what stands below it. -/
structure InnerShape (ρ α : Type) where
  id : PageId
  keys : List ρ
  children : List α

/-- What stands below a node that is `h` levels above the leaves. -/
def Shape (ρ : Type) : ℕ → Type
  | 0 => LeafShape ρ
  | h + 1 => InnerShape ρ (Shape ρ h)

namespace Shape

variable {ρ : Type} {h : ℕ}

/-- A shape without levels is a leaf. -/
@[match_pattern]
def leaf (id : PageId) (rows : List ρ) : Shape ρ 0 := LeafShape.mk id rows

/-- A shape with levels is an inner node. -/
@[match_pattern]
def inner (id : PageId) (keys : List ρ) (children : List (Shape ρ h)) : Shape ρ (h + 1) :=
  InnerShape.mk id keys children

/-- The page of the topmost node. -/
def id : {h : ℕ} → Shape ρ h → PageId
  | 0, leaf id _ => id
  | _ + 1, inner id _ _ => id

/-- All rows in the order of the leaves. -/
def rows : {h : ℕ} → Shape ρ h → List ρ
  | 0, leaf _ rows => rows
  | _ + 1, inner _ _ children => children.flatMap rows

/-- The indexes of the pages of all nodes. -/
def indexes : {h : ℕ} → Shape ρ h → List ℕ
  | 0, leaf id _ => [id.index]
  | _ + 1, inner id _ children => id.index :: children.flatMap indexes

@[simp] lemma id_leaf (id : PageId) (rows : List ρ) : (leaf id rows).id = id := rfl

@[simp] lemma id_inner (id : PageId) (keys : List ρ) (children : List (Shape ρ h)) :
    (inner id keys children).id = id := rfl

@[simp] lemma rows_leaf (id : PageId) (rows : List ρ) : (leaf id rows).rows = rows := rfl

@[simp] lemma rows_inner (id : PageId) (keys : List ρ) (children : List (Shape ρ h)) :
    (inner id keys children).rows = children.flatMap Shape.rows := rfl

@[simp] lemma indexes_leaf (id : PageId) (rows : List ρ) :
    (leaf id rows).indexes = [id.index] := rfl

@[simp] lemma indexes_inner (id : PageId) (keys : List ρ) (children : List (Shape ρ h)) :
    (inner id keys children).indexes = id.index :: children.flatMap indexes := rfl

/-- Every shape without levels is a leaf. -/
lemma exists_leaf (T : Shape ρ 0) : ∃ id rows, T = leaf id rows := ⟨_, _, rfl⟩

/-- Every shape with levels is an inner node. -/
lemma exists_inner (T : Shape ρ (h + 1)) : ∃ id keys children, T = inner id keys children :=
  ⟨_, _, _, rfl⟩

/-- A child at a place, between those before and behind it. -/
lemma exists_split {children : List (Shape ρ h)} {c : Shape ρ h} {j : ℕ}
    (hc : children[j]? = some c) : ∃ cb ca, children = cb ++ c :: ca ∧ cb.length = j := by
  obtain ⟨hj, rfl⟩ := List.getElem?_eq_some_iff.mp hc
  refine ⟨children.take j, children.drop (j + 1), ?_, List.length_take_of_le hj.le⟩
  rw [← List.drop_eq_getElem_cons, List.take_append_drop]

/-- The page of the topmost node is one of the pages. -/
lemma index_mem_indexes (T : Shape ρ h) : T.id.index ∈ T.indexes := by
  cases h with
  | zero => exact List.mem_singleton.mpr rfl
  | succ h => exact List.mem_cons_self

end Shape

/-! ### Children between separators -/

section Fenced

variable {ρ κ α : Type} [LinearOrder κ] (key : ρ → κ) (P : WithBot κ → WithTop κ → α → Prop)

/-- Children in turn with ascending separators between two bounds. Each child keeps to
the part that the separators beside it leave. -/
def Fenced : WithBot κ → WithTop κ → List ρ → List α → Prop
  | lo, hi, [], [c] => P lo hi c
  | lo, hi, k :: ks, c :: cs => lo < key k ∧ key k < hi ∧ P lo (key k) c ∧ Fenced (key k) hi ks cs
  | _, _, _, _ => False

variable {key P} {lo lo' : WithBot κ} {hi hi' : WithTop κ} {k row : ρ} {keys kb ka : List ρ} {c : α}
  {children cb ca : List α}

@[simp] lemma fenced_nil : Fenced key P lo hi [] [c] ↔ P lo hi c := Iff.rfl

@[simp] lemma fenced_cons :
    Fenced key P lo hi (k :: keys) (c :: children) ↔
      lo < key k ∧ key k < hi ∧ P lo (key k) c ∧ Fenced key P (key k) hi keys children :=
  Iff.rfl

/-- The cases of a fence: a last child, or a child with the separator behind it. -/
lemma Fenced.cases (h : Fenced key P lo hi keys children) :
    (∃ c, keys = [] ∧ children = [c]) ∨
      ∃ k ks c cs, keys = k :: ks ∧ children = c :: cs := by
  match keys, children, h with
  | [], [c], _ => exact .inl ⟨c, rfl, rfl⟩
  | k :: ks, c :: cs, _ => exact .inr ⟨k, ks, c, cs, rfl, rfl⟩

/-- There is one child more than there are separators. -/
lemma Fenced.length (h : Fenced key P lo hi keys children) :
    children.length = keys.length + 1 := by
  -- By induction on the separators, each of which brings a child; the cases that do not match are
  -- none.
  induction keys generalizing lo children with
  | nil =>
      obtain ⟨c, -, rfl⟩ | ⟨_, _, _, _, hks, -⟩ := h.cases
      · rfl
      · cases hks
  | cons k ks ih =>
      obtain ⟨_, hks, -⟩ | ⟨_, _, c, cs, hks, rfl⟩ := h.cases
      · cases hks
      · cases hks
        rw [List.length_cons, ih h.2.2.2, List.length_cons]

/-- Two fences with a separator between them are one. -/
lemma fenced_append (hlen : cb.length = kb.length + 1) :
    Fenced key P lo hi (kb ++ k :: ka) (cb ++ ca) ↔
      lo < key k ∧ key k < hi ∧ Fenced key P lo (key k) kb cb ∧ Fenced key P (key k) hi ka ca := by
  induction kb generalizing lo cb with
  | nil =>
      obtain ⟨c, rfl⟩ := List.length_eq_one_iff.mp hlen
      exact Iff.rfl
  | cons k' kb ih =>
      obtain ⟨c, cb, rfl⟩ := List.exists_cons_of_length_eq_add_one hlen
      simp only [List.cons_append, fenced_cons, ih (Nat.succ.inj hlen), WithBot.coe_lt_coe,
        WithTop.coe_lt_coe]
      constructor
      · rintro ⟨hlo, hhi, hc, hk, hk', hcb, hca⟩
        exact ⟨hlo.trans (WithBot.coe_lt_coe.mpr hk), hk', ⟨hlo, hk, hc, hcb⟩, hca⟩
      · rintro ⟨hlo, hhi, ⟨hlo', hk, hc, hcb⟩, hca⟩
        exact ⟨hlo', (WithTop.coe_lt_coe.mpr hk).trans hhi, hc, hk, hhi, hcb, hca⟩

/-- A fence cut at one of its keys. -/
lemma Fenced.cut (h : Fenced key P lo hi keys children) {m : ℕ} (hm : m < keys.length) :
    lo < key keys[m] ∧ key keys[m] < hi ∧
      Fenced key P lo (key keys[m]) (keys.take m) (children.take (m + 1)) ∧
      Fenced key P (key keys[m]) hi (keys.drop (m + 1)) (children.drop (m + 1)) := by
  have hlen := h.length
  have hkeys : keys.take m ++ keys[m] :: keys.drop (m + 1) = keys := by
    rw [← List.drop_eq_getElem_cons, List.take_append_drop]
  have htake : (children.take (m + 1)).length = (keys.take m).length + 1 := by
    rw [List.length_take_of_le (by omega), List.length_take_of_le (by omega)]
  rwa [← fenced_append htake, hkeys, List.take_append_drop]

/-- Wider bounds do for what keeps to narrower ones. -/
def Widens (P : WithBot κ → WithTop κ → α → Prop) : Prop :=
  ∀ (lo lo' : WithBot κ) (hi hi' : WithTop κ) (c : α), lo' ≤ lo → hi ≤ hi' → P lo hi c →
    P lo' hi' c

/-- A fence stands between wider bounds if its children do. -/
lemma Fenced.mono (hP : Widens P) (h : Fenced key P lo hi keys children) (hlo : lo' ≤ lo)
    (hhi : hi ≤ hi') : Fenced key P lo' hi' keys children := by
  induction keys generalizing lo lo' children with
  | nil =>
      obtain ⟨c, -, rfl⟩ | ⟨_, _, _, _, hks, -⟩ := h.cases
      · exact hP _ _ _ _ _ hlo hhi h
      · cases hks
  | cons k ks ih =>
      obtain ⟨_, hks, -⟩ | ⟨_, _, c, cs, hks, rfl⟩ := h.cases
      · cases hks
      · cases hks
        obtain ⟨hk, hk', hc, hcs⟩ := h
        exact ⟨hlo.trans_lt hk, hk'.trans_le hhi, hP _ _ _ _ _ hlo le_rfl hc, ih hcs le_rfl⟩

/-- Separators are ascending and lie strictly between the bounds. -/
lemma Fenced.separators (h : Fenced key P lo hi keys children) :
    Rows.Ascending key keys ∧ ∀ k ∈ keys, lo < key k ∧ key k < hi := by
  induction keys generalizing lo children with
  | nil => exact ⟨List.Pairwise.nil, by simp⟩
  | cons k ks ih =>
      obtain ⟨_, hks, -⟩ | ⟨_, _, c, cs, hks, rfl⟩ := h.cases
      · cases hks
      · cases hks
        obtain ⟨hk, hk', hc, hcs⟩ := h
        obtain ⟨hasc, hbounds⟩ := ih hcs
        -- All later separators lie above the first one, which is the lower bound of their fence.
        refine ⟨List.pairwise_cons.mpr ⟨fun q hq => ?_, hasc⟩, ?_⟩
        · exact WithBot.coe_lt_coe.mp (hbounds q hq).1
        · refine List.forall_mem_cons.mpr ⟨⟨hk, hk'⟩, fun q hq => ?_⟩
          exact ⟨hk.trans (hbounds q hq).1, (hbounds q hq).2⟩

/-- Every child keeps to some part between the bounds. -/
lemma Fenced.of_mem (h : Fenced key P lo hi keys children) (hc : c ∈ children) :
    ∃ a b, P a b c ∧ lo ≤ a ∧ b ≤ hi := by
  induction keys generalizing lo children with
  | nil =>
      obtain ⟨c', -, rfl⟩ | ⟨_, _, _, _, hks, -⟩ := h.cases
      · obtain rfl := List.mem_singleton.mp hc
        exact ⟨lo, hi, h, le_rfl, le_rfl⟩
      · cases hks
  | cons k ks ih =>
      obtain ⟨_, hks, -⟩ | ⟨_, _, c', cs, hks, rfl⟩ := h.cases
      · cases hks
      · cases hks
        obtain ⟨hk, hk', hc', hcs⟩ := h
        -- The first child ends at the first separator; the parts of the later ones begin behind
        -- it.
        rcases List.mem_cons.mp hc with rfl | hc
        · exact ⟨lo, key k, hc', le_rfl, hk'.le⟩
        · obtain ⟨a, b, hab, ha, hb⟩ := ih hcs hc
          exact ⟨a, b, hab, hk.le.trans ha, hb⟩

/-- A child is taken out of a fence together with the separator before it, or with the
first one. A neighbour gets its part. -/
lemma Fenced.erase (hP : Widens P) (hlen : kb.length = cb.length)
    (h : Fenced key P lo hi (kb ++ ka) (cb ++ c :: ca)) (hne : kb ++ ka ≠ []) :
    Fenced key P lo hi ((kb ++ ka).eraseIdx (cb.length - 1)) (cb ++ ca) := by
  rcases List.eq_nil_or_concat kb with rfl | ⟨kb, k, rfl⟩
  · -- the first child: the next one begins where it began
    obtain rfl := List.eq_nil_of_length_eq_zero hlen.symm
    obtain ⟨k, ka, rfl⟩ := List.exists_cons_of_ne_nil (by simpa using hne)
    obtain ⟨hk, -, -, hca⟩ := h
    exact hca.mono hP hk.le le_rfl
  · -- a later child: the one before it ends where it ended
    rw [List.concat_eq_append] at h hlen ⊢
    have hlen' : cb.length = kb.length + 1 := by simpa using hlen.symm
    rw [List.append_assoc, List.singleton_append] at h ⊢
    rw [hlen', Nat.add_sub_cancel, eraseIdx_middle]
    obtain ⟨hlo, hhi, hcb, hca⟩ := (fenced_append hlen').mp h
    obtain ⟨c', rfl, hcs⟩ | ⟨k', ka, c', cs, rfl, hcs⟩ := hca.cases
    · cases hcs
      simpa using hcb.mono hP le_rfl hhi.le
    · cases hcs
      obtain ⟨hk, hk', -, hca⟩ := hca
      have hlt : key k < key k' := WithBot.coe_lt_coe.mp hk
      refine (fenced_append hlen').mpr ⟨hlo.trans hk, hk', ?_, hca⟩
      exact hcb.mono hP le_rfl (WithTop.coe_le_coe.mpr hlt.le)

/-! ### The way to a row -/

variable (key P) in
/-- The child `c` is on the way to a row: the children before it keep to smaller keys,
those behind it to greater ones. Whatever is fenced by the bounds of the child may
stand in its place. -/
structure Route (row : ρ) (lo : WithBot κ) (hi : WithTop κ) (kb ka : List ρ) (cb : List α) (c : α)
    (ca : List α) : Prop where
  length : kb.length = cb.length
  place : Tree.childAt (Rows.place key row (kb ++ ka)) = cb.length
  before : ∀ d ∈ cb, ∃ a b, P a b d ∧ b ≤ key row
  after : ∀ d ∈ ca, ∃ a b, P a b d ∧ key row < a
  child : ∃ lo' hi', P lo' hi' c ∧ lo' ≤ key row ∧ key row < hi' ∧
    ∀ km cm, Fenced key P lo' hi' km cm → Fenced key P lo hi (kb ++ km ++ ka) (cb ++ cm ++ ca)

/-- A row that is not smaller than the first separator goes to a later child. -/
lemma childAt_place_cons (h : Rows.Ascending key (k :: keys)) (row : ρ) :
    Tree.childAt (Rows.place key row (k :: keys))
      = if key row < key k then 0 else Tree.childAt (Rows.place key row keys) + 1 := by
  rw [Rows.place]
  split
  · rfl
  · split
    · -- a row with the key of the separator goes to the child behind it
      rename_i heq
      have hplace : Rows.place key row keys = .gap 0 := by
        cases keys with
        | nil => rfl
        | cons k' ks =>
            have hlt := (List.pairwise_cons.mp h).1 k' List.mem_cons_self
            rw [Rows.place, if_pos (heq ▸ hlt)]
      rw [hplace]
      rfl
    · cases Rows.place key row keys <;> rfl

/-- In a fence there is a way to every row between its bounds. -/
lemma Fenced.exists_route (h : Fenced key P lo hi keys children) (hlo : lo ≤ key row)
    (hhi : key row < hi) :
    ∃ kb ka cb c ca, keys = kb ++ ka ∧ children = cb ++ c :: ca ∧
      Route key P row lo hi kb ka cb c ca := by
  -- By induction on the separators, from the left: the bound that goes along is where the next
  -- child begins.
  induction keys generalizing lo children with
  | nil =>
      obtain ⟨c, -, rfl⟩ | ⟨_, _, _, _, hks, -⟩ := h.cases
      · exact ⟨[], [], [], c, [], rfl, rfl, rfl, rfl, by simp, by simp, lo, hi, h, hlo, hhi,
          fun km cm hm => by simpa using hm⟩
      · cases hks
  | cons k ks ih =>
      have hplace := childAt_place_cons h.separators.1 row
      obtain ⟨_, hks, -⟩ | ⟨_, _, c, cs, hks, rfl⟩ := h.cases
      · cases hks
      cases hks
      obtain ⟨hk, hk', hc, hcs⟩ := h
      by_cases hlt : key row < key k
      · -- the row belongs to the first child
        refine ⟨[], k :: ks, [], c, cs, rfl, rfl, rfl, by rw [List.nil_append, hplace, if_pos hlt]; rfl,
          by simp, ?_, lo, key k, hc, hlo, WithTop.coe_lt_coe.mpr hlt, ?_⟩
        · intro d hd
          obtain ⟨a, b, hab, ha, -⟩ := hcs.of_mem hd
          exact ⟨a, b, hab, (WithBot.coe_lt_coe.mpr hlt).trans_le ha⟩
        · intro km cm hm
          exact (fenced_append hm.length).mpr ⟨hk, hk', hm, hcs⟩
      · -- the row belongs to a later child
        obtain ⟨kb, ka, cb, d, ca, rfl, rfl, hroute⟩ :=
          ih hcs (WithBot.coe_le_coe.mpr (not_lt.mp hlt))
        obtain ⟨lo', hi', hd, hlo', hhi', hput⟩ := hroute.child
        refine ⟨k :: kb, ka, c :: cb, d, ca, rfl, rfl, by simp [hroute.length], ?_, ?_, hroute.after,
          lo', hi', hd, hlo', hhi', ?_⟩
        · rw [List.cons_append, hplace, if_neg hlt, hroute.place, List.length_cons]
        · refine List.forall_mem_cons.mpr ⟨⟨lo, key k, hc, ?_⟩, hroute.before⟩
          exact WithTop.coe_le_coe.mpr (not_lt.mp hlt)
        · intro km cm hm
          exact ⟨hk, hk', hc, hput km cm hm⟩

end Fenced

/-! ### Order -/

namespace Shape

variable {ρ κ : Type} [LinearOrder κ] (key : ρ → κ) {h : ℕ} {lo lo' : WithBot κ} {hi hi' : WithTop κ}
  {id : PageId} {row : ρ} {rows keys kb ka : List ρ} {T c : Shape ρ h}
  {children cb ca : List (Shape ρ h)}

/-- The rows of every leaf ascend and keep between the separators above it. -/
def Ordered : {h : ℕ} → WithBot κ → WithTop κ → Shape ρ h → Prop
  | 0, lo, hi, leaf _ rows => Rows.Ascending key rows ∧ ∀ r ∈ rows, lo ≤ key r ∧ key r < hi
  | _ + 1, lo, hi, inner _ keys children => Fenced key Ordered lo hi keys children

variable {key}

@[simp] lemma ordered_leaf :
    (leaf id rows).Ordered key lo hi ↔
      Rows.Ascending key rows ∧ ∀ r ∈ rows, lo ≤ key r ∧ key r < hi :=
  Iff.rfl

@[simp] lemma ordered_inner :
    (inner id keys children).Ordered key lo hi ↔
      Fenced key (Ordered key) lo hi keys children :=
  Iff.rfl

/-- What is ordered between two bounds is so between wider ones, by induction on the height. -/
lemma widens_ordered : Widens (Ordered key (h := h)) := by
  induction h with
  | zero =>
      intro lo lo' hi hi' T hlo hhi hT
      exact ⟨hT.1, fun r hr => ⟨hlo.trans (hT.2 r hr).1, (hT.2 r hr).2.trans_le hhi⟩⟩
  | succ h ih =>
      intro lo lo' hi hi' T hlo hhi hT
      exact Fenced.mono ih hT hlo hhi

/-- The rows of a whole shape ascend, and keep between its bounds. -/
lemma Ordered.bounded (hT : T.Ordered key lo hi) :
    Rows.Ascending key T.rows ∧ ∀ r ∈ T.rows, lo ≤ key r ∧ key r < hi := by
  induction h generalizing lo hi with
  | zero => exact hT
  | succ h ih =>
      obtain ⟨id, keys, children, rfl⟩ := T.exists_inner
      rw [rows_inner]
      rw [ordered_inner] at hT
      -- The rows of the first child end where those of the others begin, at the first separator.
      induction keys generalizing lo children with
      | nil =>
          obtain ⟨c, -, rfl⟩ | ⟨_, _, _, _, hks, -⟩ := hT.cases
          · simpa using ih hT
          · cases hks
      | cons k ks ihk =>
          obtain ⟨_, hks, -⟩ | ⟨_, _, c, cs, hks, rfl⟩ := hT.cases
          · cases hks
          cases hks
          obtain ⟨hk, hk', hc, hcs⟩ := hT
          obtain ⟨hasc, hbounds⟩ := ih hc
          obtain ⟨hasc', hbounds'⟩ := ihk cs hcs
          rw [List.flatMap_cons]
          refine ⟨Rows.ascending_append.mpr ⟨hasc, hasc', fun a ha b hb => ?_⟩, fun r hr => ?_⟩
          · exact (WithTop.coe_lt_coe.mp (hbounds a ha).2).trans_le
              (WithBot.coe_le_coe.mp (hbounds' b hb).1)
          · rcases List.mem_append.mp hr with hr | hr
            · exact ⟨(hbounds r hr).1, (hbounds r hr).2.trans hk'⟩
            · exact ⟨hk.le.trans (hbounds' r hr).1, (hbounds' r hr).2⟩

/-- Beside the way to a row are smaller and greater rows only. -/
lemma route_around (hroute : Route key (Ordered key) row lo hi kb ka cb c ca) :
    Rows.Around key row (cb.flatMap Shape.rows) (ca.flatMap Shape.rows) := by
  refine ⟨fun r hr => ?_, fun r hr => ?_⟩
  · obtain ⟨d, hd, hr⟩ := List.mem_flatMap.mp hr
    obtain ⟨a, b, hab, hb⟩ := hroute.before d hd
    exact WithTop.coe_lt_coe.mp ((hab.bounded.2 r hr).2.trans_le hb)
  · obtain ⟨d, hd, hr⟩ := List.mem_flatMap.mp hr
    obtain ⟨a, b, hab, ha⟩ := hroute.after d hd
    exact WithBot.coe_lt_coe.mp (ha.trans_le (hab.bounded.2 r hr).1)

/-! ### Pages of their own -/

/-- A child, the node above it and the children beside it are in different pages. -/
structure Beside (id : PageId) (cb : List (Shape ρ h)) (c : Shape ρ h) (ca : List (Shape ρ h)) :
    Prop where
  distinct : c.indexes.Nodup
  above : id.index ∉ c.indexes
  above_others : ∀ d ∈ cb ++ ca, id.index ∉ d.indexes
  others : ∀ d ∈ cb ++ ca, ∀ i ∈ d.indexes, i ∉ c.indexes

/-- Where no page comes twice, a child shares none with its surroundings. -/
lemma beside_of_nodup (hT : (inner id keys (cb ++ c :: ca)).indexes.Nodup) : Beside id cb c ca := by
  rw [indexes_inner] at hT
  obtain ⟨hid, hbelow⟩ := List.nodup_cons.mp hT
  rw [List.flatMap_append, List.flatMap_cons] at hid hbelow
  simp only [List.mem_append, not_or] at hid
  obtain ⟨hidb, hidc, hida⟩ := hid
  have hafter := hbelow.of_append_right
  refine ⟨hafter.of_append_left, hidc, fun d hd hin => ?_, fun d hd i hi hic => ?_⟩
  · rcases List.mem_append.mp hd with hd | hd
    · exact hidb (List.mem_flatMap.mpr ⟨d, hd, hin⟩)
    · exact hida (List.mem_flatMap.mpr ⟨d, hd, hin⟩)
  · rcases List.mem_append.mp hd with hd | hd
    · exact List.disjoint_of_nodup_append hbelow (List.mem_flatMap.mpr ⟨d, hd, hi⟩)
        (List.mem_append_left _ hic)
    · exact List.disjoint_of_nodup_append hafter hic (List.mem_flatMap.mpr ⟨d, hd, hi⟩)

/-! ### Leaves that are not empty -/

/-- Every leaf has a row. -/
def Filled : {h : ℕ} → Shape ρ h → Prop
  | 0, leaf _ rows => rows ≠ []
  | _ + 1, inner _ _ children => ∀ c ∈ children, Filled c

@[simp] lemma filled_leaf : (leaf id rows).Filled ↔ rows ≠ [] := Iff.rfl

@[simp] lemma filled_inner : (inner id keys children).Filled ↔ ∀ c ∈ children, c.Filled := Iff.rfl

/-- A shape whose leaves are not empty has a row. -/
lemma Filled.rows_ne_nil (hfilled : T.Filled) (hT : T.Ordered key lo hi) : T.rows ≠ [] := by
  induction h generalizing lo hi with
  | zero => exact hfilled
  | succ h ih =>
      obtain ⟨id, keys, children, rfl⟩ := T.exists_inner
      have hlen := Fenced.length hT
      obtain ⟨c, cs, rfl⟩ := List.exists_cons_of_length_eq_add_one hlen
      obtain ⟨a, b, hab, -⟩ := Fenced.of_mem hT List.mem_cons_self
      have hne := ih (hfilled c List.mem_cons_self) hab
      simp [hne]

/-- A topmost inner node has a separator. -/
def Rooted : {h : ℕ} → Shape ρ h → Prop
  | 0, _ => True
  | _ + 1, inner _ keys _ => keys ≠ []

@[simp] lemma rooted_leaf : (leaf id rows).Rooted := trivial

@[simp] lemma rooted_inner : (inner id keys children).Rooted ↔ keys ≠ [] := Iff.rfl

/-- On the way down to a leaf every level has a node of its own. -/
lemma Ordered.height_lt (hT : T.Ordered key lo hi) : h < T.indexes.length := by
  induction h generalizing lo hi with
  | zero => exact Nat.one_pos
  | succ h ih =>
      obtain ⟨id, keys, children, rfl⟩ := T.exists_inner
      have hlen := Fenced.length hT
      obtain ⟨c, cs, rfl⟩ := List.exists_cons_of_length_eq_add_one hlen
      obtain ⟨a, b, hab, -⟩ := Fenced.of_mem hT List.mem_cons_self
      have hlt := ih hab
      rw [indexes_inner, List.length_cons, List.flatMap_cons, List.length_append]
      omega

end Shape

/-! ### Whole trees -/

/-- A whole tree: a shape and its height. -/
structure TreeShape (ρ : Type) where
  height : ℕ
  top : Shape ρ height

namespace TreeShape

variable {ρ κ : Type} [LinearOrder κ]

/-- All rows in order. -/
def rows (T : TreeShape ρ) : List ρ := T.top.rows

/-- The indexes of the pages of all nodes. -/
def indexes (T : TreeShape ρ) : List ℕ := T.top.indexes

/-- The order of a whole tree knows no bounds. -/
def Ordered (key : ρ → κ) (T : TreeShape ρ) : Prop := T.top.Ordered key ⊥ ⊤

/-- An ordered tree with no empty leaf but a lonely one. -/
structure Dense (key : ρ → κ) (T : TreeShape ρ) : Prop where
  ordered : T.Ordered key
  filled : T.height ≠ 0 → T.top.Filled

/-- A tree as its operations leave it: ordered, with no empty leaf but a lonely one, and
with a separator in an inner root. -/
structure Proper (key : ρ → κ) (T : TreeShape ρ) : Prop where
  ordered : T.Ordered key
  filled : T.height ≠ 0 → T.top.Filled
  rooted : T.top.Rooted

/-- What the operations leave is dense. -/
lemma Proper.dense {key : ρ → κ} {T : TreeShape ρ} (h : T.Proper key) : T.Dense key :=
  ⟨h.ordered, h.filled⟩

/-- The rows of an ordered tree ascend. -/
lemma Ordered.ascending {key : ρ → κ} {T : TreeShape ρ} (h : T.Ordered key) :
    Rows.Ascending key T.rows :=
  (Shape.Ordered.bounded h).1

end TreeShape

end PageCatalog
