import Mathlib.Tactic
import PageCatalog.RowFormat
import PageCatalog.Store.Basic
import PageCatalog.Proofs.Tree.Shape

/-!
Putting a row into a shape.

A shape stays whole, or it is cut into two with a separator between them. A new node
takes the next index of its cache. Where none is left, the part that was already cut
off below stays without a link, and its rows are gone.

* `Grown`: what becomes of a shape; `Shape.put`, `TreeShape.put`.
* `Shape.put_meets`: order is kept, and the rows are those of the map.
* `Shape.put_unspared`: without a single page left, a shape that would have to grow
  stays as it is.
* `Shape.accounted_put`: every page is that of one node, and none is lost but where a shape
  is left short.
-/

namespace PageCatalog

/-- What becomes of a shape when a row is put into it. -/
inductive Grown (ρ : Type) (h : ℕ) where
  /-- It has the row, in place of an equal one if there was one. -/
  | whole (old : Option ρ) (T : Shape ρ h)
  /-- It is cut in two, and the second part has a new page. -/
  | cut (left : Shape ρ h) (sep : ρ) (right : Shape ρ h)
  /-- There was no page for a part, and this is still linked. -/
  | short (T : Shape ρ h)

/-- The page of a new node at an index. -/
def RowFormat.nodeId {ρ : Type} (R : RowFormat ρ) (i : ℕ) : PageId :=
  PageId.make R.partition R.space i

/-- Nodes of pages of this size can be cut: a full leaf has two rows, and a full inner
node a separator. -/
structure RowFormat.Roomy {ρ : Type} (R : RowFormat ρ) (size : ℕ) : Prop where
  leaf : 2 ≤ R.leaf.capacity size
  inner : 1 ≤ R.inner.capacity size

/-- A full node of `n` keys that gets one more at place `i` is cut behind so many. -/
def cutPoint (n i : ℕ) : ℕ := if i ≤ n / 2 then n / 2 + 1 else n / 2

namespace Shape

variable {ρ κ : Type} [LinearOrder κ] (R : RowFormat ρ) (key : ρ → κ) (size : ℕ) {h : ℕ}

/-- A row put into a leaf. The pages of the cache are `size` bytes long, and `next` is
the index of the next one. -/
def growLeaf (id : PageId) (rows : List ρ) (row : ρ) (next : ℕ) : Grown ρ 0 × ℕ :=
  match Rows.place key row rows with
  | .found i => (.whole rows[i]? (leaf id (rows.set i row)), next)
  | .gap i =>
    let all := rows.insertIdx i row
    if rows.length < R.leaf.capacity size then (.whole none (leaf id all), next)
    else if CacheFile.indexLimit ≤ next then (.short (leaf id rows), next)
    else
      let m := cutPoint rows.length i
      (.cut (leaf id (all.take m)) (all[m]?.getD row) (leaf (R.nodeId next) (all.drop m)), next + 1)

/-- Child `i` of an inner node gives way to the two parts that it was cut into. -/
def growInner (id : PageId) (keys : List ρ) (children : List (Shape ρ h)) (i : ℕ) (l : Shape ρ h)
    (sep : ρ) (r : Shape ρ h) (next : ℕ) : Grown ρ (h + 1) × ℕ :=
  let seps := keys.insertIdx i sep
  let parts := (children.set i l).insertIdx (i + 1) r
  if keys.length < R.inner.capacity size then (.whole none (inner id seps parts), next)
  else if CacheFile.indexLimit ≤ next then (.short (inner id keys (children.set i l)), next)
  else
    let m := cutPoint keys.length i
    (.cut (inner id (seps.take m) (parts.take (m + 1))) (seps[m]?.getD sep)
      (inner (R.nodeId next) (seps.drop (m + 1)) (parts.drop (m + 1))), next + 1)

/-- What becomes of an inner node, from what becomes of its child `i`. -/
def growAbove (id : PageId) (keys : List ρ) (children : List (Shape ρ h)) (i : ℕ) :
    Grown ρ h × ℕ → Grown ρ (h + 1) × ℕ
  | (.whole old c, next) => (.whole old (inner id keys (children.set i c)), next)
  | (.cut l sep r, next) => growInner R size id keys children i l sep r next
  | (.short c, next) => (.short (inner id keys (children.set i c)), next)

/-- A row put into a shape, and the next index afterwards. -/
def put (row : ρ) : {h : ℕ} → Shape ρ h → (next : ℕ) → Grown ρ h × ℕ
  | 0, leaf id rows, next => growLeaf R key size id rows row next
  | _ + 1, inner id keys children, next =>
    let i := Tree.childAt (Rows.place key row keys)
    match children[i]? with
    | none => (.short (inner id keys children), next)
    | some c => growAbove R size id keys children i (c.put row next)

/-- A row put into a leaf. -/
lemma put_leaf (id : PageId) (rows : List ρ) (row : ρ) (next : ℕ) :
    (leaf id rows).put R key size row next = growLeaf R key size id rows row next :=
  rfl

/-- A row put into an inner node: into the child on the way to it, and then what that brings is
put in. -/
lemma put_inner (id : PageId) (keys : List ρ) (children : List (Shape ρ h)) (row : ρ) (next : ℕ) :
    (inner id keys children).put R key size row next =
      match children[Tree.childAt (Rows.place key row keys)]? with
      | none => (.short (inner id keys children), next)
      | some c => growAbove R size id keys children (Tree.childAt (Rows.place key row keys))
          (c.put R key size row next) :=
  rfl

end Shape

/-! ### Order and rows -/

namespace Grown

variable {ρ κ : Type} [LinearOrder κ] (key : ρ → κ) {h : ℕ}

/-- What a row has made of a shape between two bounds. A shape that is left short lacks
some rows next to each other; if any page was left to begin with, an old one is among
them. -/
def Meets (lo : WithBot κ) (hi : WithTop κ) (row : ρ) (T : Shape ρ h) (spare : Prop) :
    Grown ρ h → Prop
  | whole old T' =>
      T'.id = T.id ∧ T'.Ordered key lo hi ∧ old = Rows.lookup key row T.rows ∧
        T'.rows = Rows.insert key row T.rows
  | cut l sep r =>
      l.id = T.id ∧ l.Ordered key lo (key sep) ∧ r.Ordered key (key sep) hi ∧ lo < key sep ∧
        key sep < hi ∧ Rows.lookup key row T.rows = none ∧
        l.rows ++ r.rows = Rows.insert key row T.rows ∧ ∃ q ∈ r.rows, q ∈ T.rows
  | short T' =>
      T'.id = T.id ∧ T'.Ordered key lo hi ∧ Rows.lookup key row T.rows = none ∧
        ∃ before lost after, T'.rows = before ++ after ∧
          Rows.insert key row T.rows = before ++ lost ++ after ∧
          (spare → ∃ q ∈ lost, q ∈ T.rows)

/-- No leaf is empty, and a topmost separator is kept. -/
def Full (T : Shape ρ h) : Grown ρ h → Prop
  | whole _ T' => T'.Filled ∧ (T.Rooted → T'.Rooted)
  | cut l _ r => l.Filled ∧ r.Filled
  | short T' => T'.Filled ∧ (T.Rooted → T'.Rooted)

/-- The indexes of the pages that a shape has become. -/
def indexes : Grown ρ h → List ℕ
  | whole _ T => T.indexes
  | cut l _ r => l.indexes ++ r.indexes
  | short T => T.indexes

/-- No part was cut off. -/
def Linked : Grown ρ h → Prop
  | short _ => False
  | _ => True

/-- What stands in the page of the old topmost node. -/
def first : Grown ρ h → Shape ρ h
  | whole _ T => T
  | cut l _ _ => l
  | short T => T

/-- What a row can make of a shape that cannot get another page. -/
def Unspared (T : Shape ρ h) : Grown ρ h → Prop
  | whole _ _ => True
  | cut _ _ _ => False
  | short T' => T' = T

end Grown

namespace Shape

variable {ρ κ : Type} [LinearOrder κ] (R : RowFormat ρ) {key : ρ → κ} {size : ℕ} {h : ℕ}
  {lo : WithBot κ} {hi : WithTop κ} {id : PageId} {row sep : ρ} {rows keys kb ka : List ρ}
  {T c l r : Shape ρ h} {children cb ca : List (Shape ρ h)} {next n i : ℕ}

/-- A node is cut among what it holds, unless it holds nothing. -/
lemma cutPoint_le (hi : i ≤ n) : cutPoint n i ≤ n ∨ n = 0 := by
  unfold cutPoint
  split <;> omega

/-- A node is never cut right before what is put in. -/
lemma cutPoint_ne (n i : ℕ) : cutPoint n i ≠ i := by
  unfold cutPoint
  split <;> omega

/-! #### Leaves -/

/-- Ascending rows cut into two leaves, with the first row of the second one between. -/
lemma ordered_cut (hrows : (leaf id rows).Ordered key lo hi) {m : ℕ} (hpos : 0 < m)
    (hm : m < rows.length) (id' : PageId) :
    (leaf id (rows.take m)).Ordered key lo (key rows[m]) ∧
      (leaf id' (rows.drop m)).Ordered key (key rows[m]) hi ∧ lo < key rows[m] ∧
        key rows[m] < hi := by
  obtain ⟨hasc, hbounds⟩ := hrows
  have hsplit : rows.take m ++ rows[m] :: rows.drop (m + 1) = rows := by
    rw [← List.drop_eq_getElem_cons, List.take_append_drop]
  obtain ⟨hleft, hright, hcross⟩ := Rows.ascending_append.mp (hsplit ▸ hasc)
  have hmem : rows[m] ∈ rows := List.getElem_mem hm
  have hbelow : ∀ r ∈ rows.take m, key r < key rows[m] := fun r hr =>
    hcross r hr _ List.mem_cons_self
  have hfirst : rows[0] ∈ rows.take m := by
    rw [List.mem_take_iff_getElem]
    exact ⟨0, by omega, rfl⟩
  refine ⟨⟨hleft, fun r hr => ⟨(hbounds r (List.mem_of_mem_take hr)).1, ?_⟩⟩, ⟨?_, ?_⟩, ?_,
    (hbounds _ hmem).2⟩
  · exact WithTop.coe_lt_coe.mpr (hbelow r hr)
  · rwa [List.drop_eq_getElem_cons hm]
  · intro r hr
    refine ⟨?_, (hbounds r (List.mem_of_mem_drop hr)).2⟩
    rw [List.drop_eq_getElem_cons hm] at hr
    rcases List.mem_cons.mp hr with rfl | hr
    · exact le_rfl
    · exact WithBot.coe_le_coe.mpr ((List.pairwise_cons.mp hright).1 r hr).le
  · exact (hbounds _ (List.mem_of_mem_take hfirst)).1.trans_lt
      (WithBot.coe_lt_coe.mpr (hbelow _ hfirst))

/-- A leaf with one more row between its bounds. -/
lemma insert_ordered (hrows : (leaf id rows).Ordered key lo hi) (hlo : lo ≤ key row)
    (hhi : key row < hi) : (leaf id (Rows.insert key row rows)).Ordered key lo hi := by
  refine ⟨Rows.insert_ascending hrows.1 row, fun r hr => ?_⟩
  obtain rfl | ⟨hr, -⟩ := Rows.mem_insert.mp hr
  · exact ⟨hlo, hhi⟩
  · exact hrows.2 r hr

/-- A leaf takes up a row, is cut in two by it, or has no page to be cut into. -/
lemma growLeaf_meets (hroom : R.Roomy size) (hrows : (leaf id rows).Ordered key lo hi)
    (hlo : lo ≤ key row) (hhi : key row < hi) :
    (growLeaf R key size id rows row next).1.Meets key lo hi row (leaf id rows)
      (next < CacheFile.indexLimit) := by
  have hall := insert_ordered hrows hlo hhi
  rw [growLeaf]
  split
  · rename_i i hat
    obtain ⟨r, hr, hlookup, hinsert, -⟩ := hrows.1.of_found hat
    rw [hinsert] at hall
    exact ⟨rfl, hall, hr.trans hlookup.symm, hinsert.symm⟩
  · rename_i i hat
    obtain ⟨hi', hlookup, hinsert, -⟩ := hrows.1.of_gap hat
    rw [hinsert] at hall
    have hlen : (rows.insertIdx i row).length = rows.length + 1 :=
      List.length_insertIdx_of_le_length hi' row
    simp only
    split
    · exact ⟨rfl, hall, hlookup.symm, hinsert.symm⟩
    · rename_i hfull
      split
      · rename_i hnext
        -- Without a page the leaf stays as it is, and only the new row is lost.
        have hmiddle := insertIdx_middle (rows.take i) (rows.drop i) row
        rw [List.take_append_drop, List.length_take_of_le hi'] at hmiddle
        refine ⟨rfl, hrows, hlookup, rows.take i, [row], rows.drop i, ?_, ?_, fun hspare => ?_⟩
        · rw [rows_leaf, List.take_append_drop]
        · rw [rows_leaf, hinsert, hmiddle, List.append_assoc, List.singleton_append]
        · exact absurd hspare (by omega)
      · have hcap := hroom.leaf
        have hcut := cutPoint_le hi'
        have hpos : 0 < cutPoint rows.length i := by
          unfold cutPoint
          split <;> omega
        have hm : cutPoint rows.length i < (rows.insertIdx i row).length := by omega
        obtain ⟨hleft, hright, hsep, hsep'⟩ := ordered_cut hall hpos hm (R.nodeId next)
        rw [List.getElem?_eq_getElem hm, Option.getD_some]
        refine ⟨rfl, hleft, hright, hsep, hsep', hlookup, ?_,
          (rows.insertIdx i row)[cutPoint rows.length i], ?_, ?_⟩
        · rw [rows_leaf, rows_leaf, rows_leaf, List.take_append_drop, hinsert]
        · exact (List.drop_eq_getElem_cons hm) ▸ List.mem_cons_self
        · -- the new row does not stand where the leaf is cut
          have hne := cutPoint_ne rows.length i
          rw [List.getElem_insertIdx]
          split
          · exact List.getElem_mem _
          · exact List.getElem_mem _

/-! #### Inner nodes -/

/-- What an inner node becomes when the child behind `cb` was cut. -/
lemma growInner_middle (R : RowFormat ρ) (id : PageId) (keys : List ρ) (cb : List (Shape ρ h))
    (c : Shape ρ h) (ca : List (Shape ρ h)) (l : Shape ρ h) (sep : ρ) (r : Shape ρ h) (next : ℕ) :
    growInner R size id keys (cb ++ c :: ca) cb.length l sep r next =
      let seps := keys.insertIdx cb.length sep
      let parts := cb ++ [l, r] ++ ca
      if keys.length < R.inner.capacity size then (.whole none (inner id seps parts), next)
      else if CacheFile.indexLimit ≤ next then (.short (inner id keys (cb ++ [l] ++ ca)), next)
      else
        let m := cutPoint keys.length cb.length
        (.cut (inner id (seps.take m) (parts.take (m + 1))) (seps[m]?.getD sep)
          (inner (R.nodeId next) (seps.drop (m + 1)) (parts.drop (m + 1))), next + 1) := by
  have hset : (cb ++ c :: ca).set cb.length l = cb ++ [l] ++ ca := by
    rw [set_middle, List.append_assoc, List.singleton_append]
  have hparts : (cb ++ [l] ++ ca).insertIdx (cb.length + 1) r = cb ++ [l, r] ++ ca := by
    have := insertIdx_middle (cb ++ [l]) ca r
    rw [List.length_append, List.length_singleton] at this
    rw [this]
    simp
  rw [growInner, hset, hparts]

/-- A cut that leaves anything behind it leaves the element there, or one from behind that. -/
lemma exists_mem_drop_append {α : Type} (before : List α) (a : α) (after : List α) {n : ℕ}
    (hn : n ≤ before.length + after.length) :
    ∃ b ∈ (before ++ a :: after).drop n, b = a ∨ b ∈ after := by
  refine ⟨(a :: after).getLast (by simp), ?_, List.mem_cons.mp (List.getLast_mem _)⟩
  have hlast : (before ++ a :: after).getLast (by simp) = (a :: after).getLast (by simp) :=
    List.getLast_append_of_ne_nil _ (by simp)
  have hne : (before ++ a :: after).drop n ≠ [] := by
    simp only [ne_eq, List.drop_eq_nil_iff, List.length_append, List.length_cons]
    omega
  rw [← hlast, ← List.getLast_drop hne]
  exact List.getLast_mem hne

/-- The last child of a node that is cut goes to the right: the new part of the one that was
cut, or an old one. In either case a row of the node stands in it. -/
lemma exists_row_right {l r : Shape ρ h} {q : ρ} {m : ℕ}
    (hroute : Route key (Ordered key) row lo hi kb ka cb c ca) (hfilled : ∀ d ∈ ca, d.Filled)
    (hq : q ∈ r.rows) (hqold : q ∈ (inner id (kb ++ ka) (cb ++ c :: ca)).rows)
    (hm : m ≤ cb.length + ca.length) :
    ∃ x ∈ ((cb ++ [l, r] ++ ca).drop (m + 1)).flatMap Shape.rows,
      x ∈ (inner id (kb ++ ka) (cb ++ c :: ca)).rows := by
  obtain ⟨b, hb, hb'⟩ := exists_mem_drop_append (cb ++ [l]) r ca (n := m + 1) (by
    rw [List.length_append, List.length_singleton]
    omega)
  have hmem : b ∈ (cb ++ [l, r] ++ ca).drop (m + 1) := by simpa using hb
  obtain rfl | hb' := hb'
  · exact ⟨q, List.mem_flatMap.mpr ⟨b, hmem, hq⟩, hqold⟩
  · obtain ⟨a, e, hae, -⟩ := hroute.after b hb'
    obtain ⟨x, hx⟩ := List.exists_mem_of_ne_nil _ ((hfilled b hb').rows_ne_nil hae)
    refine ⟨x, List.mem_flatMap.mpr ⟨b, hmem, hx⟩, ?_⟩
    rw [rows_inner]
    exact List.mem_flatMap.mpr ⟨b, by simp [hb'], hx⟩

/-- What becomes of a child with a row becomes of its parent: it takes the child up as it is now,
takes up both halves of it, or is cut in two itself. -/
lemma growAbove_meets (hroom : R.Roomy size) {grown : Grown ρ h × ℕ} {spare : Prop}
    (hroute : Route key (Ordered key) row lo hi kb ka cb c ca) (hfilled : ∀ d ∈ ca, d.Filled)
    (hgrown : ∀ lo hi, c.Ordered key lo hi → lo ≤ key row → key row < hi →
      grown.1.Meets key lo hi row c spare) :
    (growAbove R size id (kb ++ ka) (cb ++ c :: ca) cb.length grown).1.Meets key lo hi row
      (inner id (kb ++ ka) (cb ++ c :: ca)) spare := by
  obtain ⟨lo', hi', hc, hlo', hhi', hput⟩ := hroute.child
  have haround := route_around hroute
  have hold : (inner id (kb ++ ka) (cb ++ c :: ca)).rows
      = cb.flatMap Shape.rows ++ c.rows ++ ca.flatMap Shape.rows := by
    simp
  have hmeets := hgrown lo' hi' hc hlo' hhi'
  -- The rows of the whole are those before the child, its own and those behind it, and a row
  -- between the bounds of the child changes its own only.
  obtain ⟨grown, next⟩ := grown
  cases grown with
  | whole old c' =>
      obtain ⟨hid, hc', hlookup, hrows⟩ := hmeets
      have hordered := hput [] [c'] hc'
      rw [List.append_nil, List.append_assoc, List.singleton_append] at hordered
      rw [growAbove, set_middle]
      refine ⟨rfl, hordered, ?_, ?_⟩
      · rw [hold, haround.lookup, hlookup]
      · rw [hold, haround.insert, ← hrows]
        simp
  | short c' =>
      obtain ⟨hid, hc', hlookup, before, lost, after, hrows, hinsert, hspare⟩ := hmeets
      have hordered := hput [] [c'] hc'
      rw [List.append_nil, List.append_assoc, List.singleton_append] at hordered
      rw [growAbove, set_middle]
      refine ⟨rfl, hordered, by rw [hold, haround.lookup, hlookup],
        cb.flatMap Shape.rows ++ before, lost, after ++ ca.flatMap Shape.rows, ?_, ?_, ?_⟩
      · simp [hrows]
      · rw [hold, haround.insert, hinsert]
        simp
      · intro h
        obtain ⟨q, hq, hq'⟩ := hspare h
        exact ⟨q, hq, by rw [hold]; simp [hq']⟩
  | cut l sep r =>
      obtain ⟨hid, hl, hr, hsep, hsep', hlookup, hrows, q, hq, hq'⟩ := hmeets
      -- The halves of the child stand in its place, with their separator between them; so the
      -- parent is in order whatever is made of it.
      have hall := hput [sep] [l, r] ⟨hsep, hsep', hl, hr⟩
      have hinsert : Rows.insert key row (inner id (kb ++ ka) (cb ++ c :: ca)).rows
          = (cb ++ [l, r] ++ ca).flatMap Shape.rows := by
        rw [hold, haround.insert, ← hrows]
        simp
      have hlookup' : Rows.lookup key row (inner id (kb ++ ka) (cb ++ c :: ca)).rows = none := by
        rw [hold, haround.lookup, hlookup]
      have hqold : q ∈ (inner id (kb ++ ka) (cb ++ c :: ca)).rows := by
        rw [hold]
        simp [hq']
      have hseps : (kb ++ ka).insertIdx cb.length sep = kb ++ [sep] ++ ka := by
        rw [← hroute.length, insertIdx_middle, List.append_assoc, List.singleton_append]
      rw [growAbove, growInner_middle, hseps]
      simp only
      split
      · exact ⟨rfl, hall, hlookup'.symm, hinsert.symm⟩
      · rename_i hfull
        split
        · refine ⟨rfl, ?_, hlookup', cb.flatMap Shape.rows ++ l.rows, r.rows,
            ca.flatMap Shape.rows, ?_, ?_, fun _ => ⟨q, hq, hqold⟩⟩
          · have hordered := hput [] [l] (widens_ordered _ _ _ _ _ le_rfl hsep'.le hl)
            rwa [List.append_nil] at hordered
          · simp
          · rw [hinsert]
            simp
        · -- the parent is cut in two at one of its separators, which goes up
          have hcap := hroom.inner
          have hlen := hroute.length
          have hcut := cutPoint_le (n := (kb ++ ka).length) (i := cb.length) (by simp [hlen])
          set m := cutPoint (kb ++ ka).length cb.length with hm
          have hlens : (kb ++ [sep] ++ ka).length = (kb ++ ka).length + 1 := by
            simp only [List.length_append, List.length_singleton]
            omega
          have hm' : m < (kb ++ [sep] ++ ka).length := by omega
          obtain ⟨hmid, hmid', hleft, hright⟩ := hall.cut hm'
          rw [List.getElem?_eq_getElem hm', Option.getD_some]
          refine ⟨rfl, hleft, hright, hmid, hmid', hlookup', ?_, ?_⟩
          · rw [rows_inner, rows_inner, ← List.flatMap_append, List.take_append_drop, hinsert]
          · have hlens' := hall.length
            simp only [List.length_append, List.length_cons, List.length_nil] at hlens' hm'
            exact exists_row_right hroute hfilled hq hqold (by omega)

/-! #### Whole shapes -/

/-- A row is put into the child on the way to it. -/
lemma put_route (hroute : Route key (Ordered key) row lo hi kb ka cb c ca) :
    (inner id (kb ++ ka) (cb ++ c :: ca)).put R key size row next
      = growAbove R size id (kb ++ ka) (cb ++ c :: ca) cb.length (c.put R key size row next) := by
  have hchild : (cb ++ c :: ca)[Tree.childAt (Rows.place key row (kb ++ ka))]? = some c := by
    rw [hroute.place]
    simp
  rw [put_inner, hchild, hroute.place]

/-- A row put into an ordered shape: what is linked stays ordered, and its rows are those
of the map but for rows cut off where no page was left. -/
theorem put_meets (hroom : R.Roomy size) (hT : T.Ordered key lo hi) (hfilled : h ≠ 0 → T.Filled)
    (hlo : lo ≤ key row) (hhi : key row < hi) :
    (T.put R key size row next).1.Meets key lo hi row T (next < CacheFile.indexLimit) := by
  induction h generalizing lo hi with
  | zero => exact growLeaf_meets R hroom hT hlo hhi
  | succ h ih =>
      obtain ⟨id, keys, children, rfl⟩ := T.exists_inner
      have hfilled' : ∀ d ∈ children, d.Filled := hfilled (Nat.succ_ne_zero h)
      obtain ⟨kb, ka, cb, c, ca, rfl, rfl, hroute⟩ := Fenced.exists_route hT hlo hhi
      rw [put_route R hroute]
      refine growAbove_meets R hroom hroute (fun d hd => hfilled' d (by simp [hd])) ?_
      intro lo' hi' hc hlo' hhi'
      exact ih hc (fun _ => hfilled' c (by simp)) hlo' hhi'

/-- A shape is left short only where the last index is taken. -/
lemma put_exhausted (hT : T.Ordered key lo hi) (hlo : lo ≤ key row) (hhi : key row < hi)
    {T' : Shape ρ h} (hshort : (T.put R key size row next).1 = .short T') :
    CacheFile.indexLimit ≤ (T.put R key size row next).2 := by
  -- By induction down the way to the row: what is short was so at the leaf, or at a node on the
  -- way up.
  induction h generalizing lo hi with
  | zero =>
      obtain ⟨id, rows, rfl⟩ := T.exists_leaf
      rw [put_leaf, growLeaf] at hshort ⊢
      split at hshort
      · cases hshort
      · simp only at hshort ⊢
        split at hshort
        · cases hshort
        · rename_i hfull
          split at hshort
          · rename_i hnext
            rwa [if_neg hfull, if_pos hnext]
          · cases hshort
  | succ h ih =>
      obtain ⟨id, keys, children, rfl⟩ := T.exists_inner
      obtain ⟨kb, ka, cb, c, ca, rfl, rfl, hroute⟩ := Fenced.exists_route hT hlo hhi
      obtain ⟨lo', hi', hc, hlo', hhi', -⟩ := hroute.child
      have hchild : ∀ c', (c.put R key size row next).1 = .short c' →
          CacheFile.indexLimit ≤ (c.put R key size row next).2 := fun _ => ih hc hlo' hhi'
      rw [put_route R hroute] at hshort ⊢
      generalize c.put R key size row next = grown at hshort hchild
      obtain ⟨⟨old, c'⟩ | ⟨l, sep, r⟩ | c', next'⟩ := grown
      · cases hshort
      · rw [growAbove, growInner] at hshort ⊢
        simp only at hshort ⊢
        split at hshort
        · cases hshort
        · rename_i hfull
          split at hshort
          · rename_i hnext
            rwa [if_neg hfull, if_pos hnext]
          · cases hshort
      · exact hchild _ rfl

variable (key size) in
/-- A row put into an inner node goes to one of its children. -/
lemma put_inner_cases (id : PageId) (keys : List ρ) (children : List (Shape ρ h)) (row : ρ)
    (next : ℕ) :
    (inner id keys children).put R key size row next = (.short (inner id keys children), next) ∨
      ∃ cb c ca, children = cb ++ c :: ca ∧
        (inner id keys children).put R key size row next
          = growAbove R size id keys (cb ++ c :: ca) cb.length (c.put R key size row next) := by
  rw [put_inner]
  cases hc : children[Tree.childAt (Rows.place key row keys)]? with
  | none => exact .inl rfl
  | some c =>
      obtain ⟨cb, ca, rfl, hlen⟩ := exists_split hc
      exact .inr ⟨cb, c, ca, rfl, by rw [hlen]⟩

variable (key size) in
/-- The topmost node keeps its page. -/
lemma put_first_id (T : Shape ρ h) (row : ρ) (next : ℕ) :
    (T.put R key size row next).1.first.id = T.id := by
  cases h with
  | zero =>
      obtain ⟨id, rows, rfl⟩ := T.exists_leaf
      rw [put_leaf, growLeaf]
      split
      · rfl
      · simp only
        split
        · rfl
        · split <;> rfl
  | succ h =>
      obtain ⟨id, keys, children, rfl⟩ := T.exists_inner
      obtain hput | ⟨cb, c, ca, rfl, hput⟩ := put_inner_cases R key size id keys children row next
      · rw [hput]
        rfl
      · rw [hput]
        generalize c.put R key size row next = grown
        obtain ⟨⟨old, c'⟩ | ⟨l, sep, r⟩ | c', next'⟩ := grown
        · rfl
        · rw [growAbove, growInner]
          simp only
          split
          · rfl
          · split <;> rfl
        · rfl

/-- Without a single page left nothing is cut, and a shape that is left short is as it
was. -/
theorem put_unspared (T : Shape ρ h) (row : ρ) (hnext : CacheFile.indexLimit ≤ next) :
    (T.put R key size row next).1.Unspared T := by
  induction h with
  | zero =>
      obtain ⟨id, rows, rfl⟩ := T.exists_leaf
      rw [put_leaf, growLeaf]
      split
      · trivial
      · simp only [hnext, if_true]
        split
        · trivial
        · rfl
  | succ h ih =>
      obtain ⟨id, keys, children, rfl⟩ := T.exists_inner
      obtain hput | ⟨cb, c, ca, rfl, hput⟩ := put_inner_cases R key size id keys children row next
      · rw [hput]
        rfl
      · have hchild := ih c
        rw [hput]
        generalize put R key size row c next = grown at hchild
        obtain ⟨_ | _ | c', _⟩ := grown
        · trivial
        · exact False.elim hchild
        · obtain rfl : c' = c := hchild
          simp [growAbove, Grown.Unspared]

/-! ### Leaves that are not empty -/

/-- No half of a cut leaf is empty. -/
lemma growLeaf_full (hroom : R.Roomy size) (id : PageId) (rows : List ρ) (row : ρ) (next : ℕ) :
    (growLeaf R key size id rows row next).1.Full (leaf id rows) := by
  rw [growLeaf]
  split
  · rename_i i hat
    have hne : rows ≠ [] := by
      rintro rfl
      cases hat
    exact ⟨by simpa using hne, fun _ => trivial⟩
  · rename_i i hat
    have hi := Rows.place_gap_le hat
    have hlen : (rows.insertIdx i row).length = rows.length + 1 :=
      List.length_insertIdx_of_le_length hi row
    simp only
    split
    · exact ⟨List.ne_nil_of_length_pos (by omega), fun _ => trivial⟩
    · rename_i hfull
      have hcap := hroom.leaf
      split
      · exact ⟨List.ne_nil_of_length_pos (by omega), fun _ => trivial⟩
      · have hcut := cutPoint_le hi
        have hpos : 0 < cutPoint rows.length i := by
          unfold cutPoint
          split <;> omega
        refine ⟨List.ne_nil_of_length_pos ?_, List.ne_nil_of_length_pos ?_⟩
        · rw [List.length_take]
          omega
        · rw [List.length_drop]
          omega

/-- Nothing that a row does to a shape leaves an empty leaf. -/
theorem put_full (hroom : R.Roomy size) (T : Shape ρ h) (hfilled : h ≠ 0 → T.Filled) (row : ρ)
    (next : ℕ) : (T.put R key size row next).1.Full T := by
  induction h generalizing next with
  | zero =>
      obtain ⟨id, rows, rfl⟩ := T.exists_leaf
      exact growLeaf_full R hroom id rows row next
  | succ h ih =>
      obtain ⟨id, keys, children, rfl⟩ := T.exists_inner
      have hfilled' : ∀ d ∈ children, d.Filled := hfilled (Nat.succ_ne_zero h)
      obtain hput | ⟨cb, c, ca, rfl, hput⟩ := put_inner_cases R key size id keys children row next
      · rw [hput]
        exact ⟨hfilled', fun hrooted => hrooted⟩
      · have hchild := ih c (fun _ => hfilled' c (by simp)) next
        have hbefore : ∀ d ∈ cb, d.Filled := fun d hd => hfilled' d (by simp [hd])
        have hafter : ∀ d ∈ ca, d.Filled := fun d hd => hfilled' d (by simp [hd])
        have hmiddle : ∀ cm : List (Shape ρ h), (∀ d ∈ cm, d.Filled) →
            ∀ d ∈ cb ++ cm ++ ca, d.Filled := by
          intro cm hcm d hd
          rcases List.mem_append.mp hd with hd | hd
          · rcases List.mem_append.mp hd with hd | hd
            · exact hbefore d hd
            · exact hcm d hd
          · exact hafter d hd
        rw [hput]
        generalize put R key size row c next = grown at hchild
        -- By what became of the child: one that took the row up, two halves of it, or one that is
        -- short.
        obtain ⟨⟨old, c'⟩ | ⟨l, sep, r⟩ | c', next'⟩ := grown
        · rw [growAbove, set_middle]
          refine ⟨?_, fun hrooted => hrooted⟩
          simpa using hmiddle [c'] (by simpa using hchild.1)
        · obtain ⟨hl, hr⟩ := hchild
          have hparts := hmiddle [l, r] (by simp [hl, hr])
          rw [growAbove, growInner_middle]
          simp only
          split
          · refine ⟨hparts, fun hrooted => List.ne_nil_of_length_pos ?_⟩
            have hpos : 0 < keys.length := List.length_pos_iff.mpr hrooted
            rw [List.length_insertIdx]
            split <;> omega
          · split
            · exact ⟨hmiddle [l] (by simp [hl]), fun hrooted => hrooted⟩
            · exact ⟨fun d hd => hparts d (List.mem_of_mem_take hd),
                fun d hd => hparts d (List.mem_of_mem_drop hd)⟩
        · rw [growAbove, set_middle]
          refine ⟨?_, fun hrooted => hrooted⟩
          simpa using hmiddle [c'] (by simpa using hchild.1)

/-! ### Pages -/

/-- The indexes taken from `next` on count once each. -/
def fresh (next next' i : ℕ) : ℕ := if next ≤ i ∧ i < next' then 1 else 0

/-- New indexes up to one and from there on up to another. -/
lemma fresh_add {a b : ℕ} (ha : next ≤ a) (hb : a ≤ b) (i : ℕ) :
    fresh next a i + fresh a b i = fresh next b i := by
  unfold fresh
  split <;> split <;> split <;> omega

/-- No index is new up to itself. -/
lemma fresh_self (next i : ℕ) : fresh next next i = 0 := if_neg (by omega)

/-- The one index that is new. -/
lemma fresh_succ (next i : ℕ) : fresh next (next + 1) i = if next = i then 1 else 0 := by
  unfold fresh
  split <;> split <;> omega

/-- The index of the id that is made of it. -/
lemma index_nodeId (hnext : ¬ CacheFile.indexLimit ≤ next) : (R.nodeId next).index = next := by
  rw [RowFormat.nodeId, PageId.index_make]
  exact Nat.mod_eq_of_lt (by rw [CacheFile.indexLimit] at hnext; omega)

/-- The pages of a list go on in another one, with all that were taken from `next` on, but
for some that are lost. -/
def Accounted (before after lost : List ℕ) (next next' : ℕ) : Prop :=
  next ≤ next' ∧ ∀ i, after.count i + lost.count i = before.count i + fresh next next' i

/-- The same pages, and none new or lost. -/
lemma accounted_refl (is : List ℕ) (next : ℕ) : Accounted is is [] next next :=
  ⟨le_rfl, fun i => by rw [fresh_self, List.count_nil]⟩

variable (size) in
/-- The pages of an inner node that is cut are in one of its halves. -/
lemma accounted_growInner (id : PageId) (keys : List ρ) (cb : List (Shape ρ h)) (c : Shape ρ h)
    (ca : List (Shape ρ h)) (l : Shape ρ h) (sep : ρ) (r : Shape ρ h) (next : ℕ) :
    ∃ lost, ((growInner R size id keys (cb ++ c :: ca) cb.length l sep r next).1.Linked → lost = []) ∧
      Accounted (inner id keys (cb ++ [l, r] ++ ca)).indexes
        (growInner R size id keys (cb ++ c :: ca) cb.length l sep r next).1.indexes lost next
        (growInner R size id keys (cb ++ c :: ca) cb.length l sep r next).2 := by
  rw [growInner_middle]
  simp only
  split
  · exact ⟨[], fun _ => rfl, accounted_refl _ _⟩
  · split
    · -- nothing leads to the right part
      refine ⟨r.indexes, fun hlinked => hlinked.elim, le_rfl, fun i => ?_⟩
      simp only [Grown.indexes, indexes_inner, List.flatMap_append, List.flatMap_cons, List.count_cons,
        List.count_append, List.flatMap_nil, List.append_nil, fresh_self]
      omega
    · rename_i hnext
      refine ⟨[], fun _ => rfl, Nat.le_succ _, fun i => ?_⟩
      have hparts := congrArg (fun T : List (Shape ρ h) => (T.flatMap indexes).count i)
        (List.take_append_drop (cutPoint keys.length cb.length + 1) (cb ++ [l, r] ++ ca))
      simp only [List.flatMap_append, List.count_append] at hparts
      simp only [Grown.indexes, indexes_inner, List.count_cons, List.count_append, List.count_nil,
        index_nodeId R hnext, fresh_succ, beq_iff_eq, List.flatMap_append]
      omega

variable (key size) in
/-- Pages are those of before and, from the next index on, new ones. None is lost unless the
shape is left short. -/
theorem accounted_put (T : Shape ρ h) (row : ρ) (next : ℕ) :
    ∃ lost, ((T.put R key size row next).1.Linked → lost = []) ∧
      Accounted T.indexes (T.put R key size row next).1.indexes lost next
        (T.put R key size row next).2 := by
  induction h generalizing next with
  | zero =>
      obtain ⟨id, rows, rfl⟩ := T.exists_leaf
      rw [put_leaf, growLeaf]
      split
      · exact ⟨[], fun _ => rfl, accounted_refl _ _⟩
      · simp only
        split
        · exact ⟨[], fun _ => rfl, accounted_refl _ _⟩
        · split
          · exact ⟨[], fun _ => rfl, accounted_refl _ _⟩
          · rename_i hnext
            refine ⟨[], fun _ => rfl, Nat.le_succ _, fun i => ?_⟩
            simp only [Grown.indexes, indexes_leaf, List.count_append, List.count_singleton,
              List.count_nil, index_nodeId R hnext, fresh_succ, beq_iff_eq]
            omega
  | succ h ih =>
      obtain ⟨id, keys, children, rfl⟩ := T.exists_inner
      obtain hput | ⟨cb, c, ca, rfl, hput⟩ := put_inner_cases R key size id keys children row next
      · rw [hput]
        exact ⟨[], fun _ => rfl, accounted_refl _ _⟩
      · obtain ⟨lost, hlost, hle, hcount⟩ := ih c next
        rw [hput]
        generalize put R key size row c next = grown at hlost hle hcount
        -- The child stands with its pages in place of the old one; if it was cut, both halves do,
        -- and the node itself may be cut.
        obtain ⟨⟨old, c'⟩ | ⟨l, sep, r⟩ | c', next'⟩ := grown
        · refine ⟨lost, hlost, hle, fun i => ?_⟩
          have := hcount i
          simp only [growAbove, set_middle, Grown.indexes, indexes_inner, List.flatMap_append,
            List.flatMap_cons, List.count_cons, List.count_append] at this ⊢
          omega
        · obtain ⟨lost', hlost', hle', hcount'⟩ := accounted_growInner R size id keys cb c ca l sep r next'
          refine ⟨lost', hlost', hle.trans hle', fun i => ?_⟩
          obtain rfl : lost = [] := hlost trivial
          have := hcount i
          have := hcount' i
          have hfresh := fresh_add hle hle' i
          simp only [growAbove, Grown.indexes, indexes_inner, List.flatMap_append, List.flatMap_cons,
            List.flatMap_nil, List.append_nil, List.count_cons, List.count_append, List.count_nil] at *
          omega
        · refine ⟨lost, hlost, hle, fun i => ?_⟩
          have := hcount i
          simp only [growAbove, set_middle, Grown.indexes, indexes_inner, List.flatMap_append,
            List.flatMap_cons, List.count_cons, List.count_append] at this ⊢
          omega

variable (key size) in
/-- Every page is that of one node at most. -/
lemma count_put_le (T : Shape ρ h) (row : ρ) (next : ℕ) :
    next ≤ (T.put R key size row next).2 ∧
      ∀ i, (T.put R key size row next).1.indexes.count i
        ≤ T.indexes.count i + fresh next (T.put R key size row next).2 i := by
  obtain ⟨lost, -, hle, hcount⟩ := accounted_put R key size T row next
  exact ⟨hle, fun i => (Nat.le_add_right _ _).trans (hcount i).le⟩

end Shape

/-! ### Whole trees -/

/-- What becomes of a whole tree when a row is put into it. -/
structure TreeGrown (ρ : Type) where
  /-- The row that was replaced, if there was one; nothing at all if a page was missing. -/
  old : Option (Option ρ)
  tree : TreeShape ρ
  next : ℕ

namespace TreeShape

open Shape

variable {ρ κ : Type} [LinearOrder κ] (R : RowFormat ρ) (key : ρ → κ) (size : ℕ)

/-- A row put into a whole tree. A root that is cut gets a new one above it. -/
def put (row : ρ) (T : TreeShape ρ) (next : ℕ) : TreeGrown ρ :=
  match T.top.put R key size row next with
  | (.whole old top, next) => ⟨some old, ⟨T.height, top⟩, next⟩
  | (.cut l sep r, next) =>
    if CacheFile.indexLimit ≤ next then ⟨none, ⟨T.height, l⟩, next⟩
    else ⟨some none, ⟨T.height + 1, inner (R.nodeId next) [sep] [l, r]⟩, next + 1⟩
  | (.short top, next) => ⟨none, ⟨T.height, top⟩, next⟩

variable {key size} {T : TreeShape ρ} {row : ρ} {next : ℕ}

/-- A row meets the whole tree without bounds. -/
lemma top_meets (hroom : R.Roomy size) (hT : T.Dense key) (row : ρ) (next : ℕ) :
    (T.top.put R key size row next).1.Meets key ⊥ ⊤ row T.top (next < CacheFile.indexLimit) :=
  put_meets R hroom hT.ordered hT.filled bot_le (WithTop.coe_lt_top _)

/-- Whatever a row does to a tree leaves a dense one, with no other rows than before. -/
theorem put_dense (hroom : R.Roomy size) (hT : T.Dense key) (row : ρ) (next : ℕ) :
    (T.put R key size row next).tree.Dense key ∧
      ∀ q ∈ (T.put R key size row next).tree.rows, q ∈ Rows.insert key row T.rows := by
  have hmeets := top_meets R hroom hT row next
  have hfull : (T.top.put R key size row next).1.Full T.top := put_full R hroom T.top hT.filled row next
  rw [put]
  generalize T.top.put R key size row next = grown at hmeets hfull
  -- The root took the row up, or was cut, with or without a page for a new root, or is short.
  obtain ⟨⟨old', top⟩ | ⟨l, sep, r⟩ | top, next'⟩ := grown
  · obtain ⟨-, hordered, -, hrows⟩ := hmeets
    exact ⟨⟨hordered, fun _ => hfull.1⟩, fun q hq => by rwa [TreeShape.rows, ← hrows]⟩
  · obtain ⟨-, hl, hr, hsep, hsep', -, hrows, -⟩ := hmeets
    obtain ⟨hl', hr'⟩ := hfull
    rw [← show l.rows ++ r.rows = Rows.insert key row T.rows from hrows]
    simp only
    split
    · exact ⟨⟨widens_ordered _ _ _ _ _ le_rfl le_top hl, fun _ => hl'⟩,
        fun q hq => List.mem_append_left _ hq⟩
    · refine ⟨⟨⟨hsep, hsep', hl, hr⟩, fun _ => ?_⟩, fun q hq => ?_⟩
      · change ∀ c ∈ [l, r], c.Filled
        simp [hl', hr']
      · rw [TreeShape.rows, rows_inner] at hq
        simpa using hq
  · obtain ⟨-, hordered, -, before, lost, after, hrows, hinsert, -⟩ := hmeets
    refine ⟨⟨hordered, fun _ => hfull.1⟩, fun q hq => ?_⟩
    rw [show (⟨T.height, top⟩ : TreeShape ρ).rows = before ++ after from hrows] at hq
    rw [show Rows.insert key row T.rows = before ++ lost ++ after from hinsert]
    simp only [List.mem_append] at hq ⊢
    tauto

/-- A row put into a tree acts on the map of its rows. -/
theorem put_rows (hroom : R.Roomy size) (hT : T.Dense key) {old : Option ρ}
    (hold : (T.put R key size row next).old = some old) :
    old = Rows.lookup key row T.rows ∧
      (T.put R key size row next).tree.rows = Rows.insert key row T.rows := by
  have hmeets := top_meets R hroom hT row next
  rw [put] at hold ⊢
  generalize T.top.put R key size row next = grown at hmeets hold
  obtain ⟨⟨old', top⟩ | ⟨l, sep, r⟩ | top, next'⟩ := grown
  · cases hold
    exact hmeets.2.2
  · obtain ⟨-, -, -, -, -, hlookup, hrows, -⟩ := hmeets
    simp only at hold ⊢
    split at hold
    · cases hold
    · rename_i hnext
      cases hold
      rw [if_neg hnext]
      refine ⟨hlookup.symm, ?_⟩
      change (inner (R.nodeId next') [sep] [l, r]).rows = _
      rw [← show l.rows ++ r.rows = Rows.insert key row T.rows from hrows]
      simp
  · cases hold

/-- A row put into a tree acts on the map of its rows, and leaves a tree in order. -/
theorem put_insert (hroom : R.Roomy size) (hT : T.Proper key) {old : Option ρ}
    (hold : (T.put R key size row next).old = some old) :
    (T.put R key size row next).tree.Proper key ∧ old = Rows.lookup key row T.rows ∧
      (T.put R key size row next).tree.rows = Rows.insert key row T.rows := by
  obtain ⟨hordered, hfilled⟩ := (put_dense R hroom hT.dense row next).1
  refine ⟨⟨hordered, hfilled, ?_⟩, put_rows R hroom hT.dense hold⟩
  have hfull : (T.top.put R key size row next).1.Full T.top := put_full R hroom T.top hT.filled row next
  rw [put] at hold ⊢
  generalize T.top.put R key size row next = grown at hfull hold
  obtain ⟨⟨old', top⟩ | ⟨l, sep, r⟩ | top, next'⟩ := grown
  · exact hfull.2 hT.rooted
  · simp only at hold ⊢
    split at hold
    · cases hold
    · rename_i hnext
      rw [if_neg hnext]
      exact List.cons_ne_nil _ _
  · cases hold

/-- A tree that lacked a page keeps its height, its root and its order. It is as it was
if there was no page at all, and else a row has gone from it. -/
theorem put_missing (hroom : R.Roomy size) (hT : T.Dense key)
    (hold : (T.put R key size row next).old = none) :
    (T.put R key size row next).tree.Ordered key ∧
      (T.put R key size row next).tree.height = T.height ∧
      (T.put R key size row next).tree.top.id = T.top.id ∧
      (CacheFile.indexLimit ≤ next → (T.put R key size row next).tree = T) ∧
      (next < CacheFile.indexLimit → ∃ q ∈ T.rows,
        Rows.lookup key q (T.put R key size row next).tree.rows = none) := by
  have hmeets := top_meets R hroom hT row next
  have hunspared : CacheFile.indexLimit ≤ next →
      (T.top.put R key size row next).1.Unspared T.top :=
    put_unspared R T.top row
  have hinserted : Rows.Ascending key (Rows.insert key row T.top.rows) :=
    Rows.insert_ascending hT.ordered.ascending row
  rw [put] at hold ⊢
  -- The row that is gone is behind the cut, or it stands in the part that nothing leads to.
  generalize T.top.put R key size row next = grown at hmeets hunspared hold
  obtain ⟨⟨old', top⟩ | ⟨l, sep, r⟩ | top, next'⟩ := grown
  · cases hold
  · obtain ⟨hid, hl, -, -, hsep', -, hrows, q, hq, hq'⟩ := hmeets
    simp only at hold ⊢
    split at hold
    · rename_i hnext
      rw [if_pos hnext]
      refine ⟨widens_ordered _ _ _ _ _ le_rfl le_top hl, rfl, hid, fun h => ?_, fun _ => ⟨q, hq', ?_⟩⟩
      · exact False.elim (hunspared h)
      · rw [← hrows] at hinserted
        exact Rows.lookup_eq_none.mpr fun a ha =>
          ne_of_lt ((Rows.ascending_append.mp hinserted).2.2 a ha q hq)
    · cases hold
  · obtain ⟨hid, hordered, -, before, lost, after, hrows, hinsert, hlost⟩ := hmeets
    refine ⟨hordered, rfl, hid, fun h => ?_, fun h => ?_⟩
    · obtain rfl : top = T.top := hunspared h
      rfl
    · obtain ⟨q, hq, hq'⟩ := hlost h
      refine ⟨q, hq', ?_⟩
      rw [hinsert, List.append_assoc] at hinserted
      obtain ⟨-, hrest, hbefore⟩ := Rows.ascending_append.mp hinserted
      obtain ⟨-, -, hafter⟩ := Rows.ascending_append.mp hrest
      refine Rows.lookup_eq_none.mpr fun a ha => ?_
      rw [show (⟨T.height, top⟩ : TreeShape ρ).rows = before ++ after from hrows] at ha
      rcases List.mem_append.mp ha with ha | ha
      · exact ne_of_lt (hbefore a ha q (List.mem_append_left _ hq))
      · exact (ne_of_lt (hafter q hq a ha)).symm

/-- A tree lacks a page only where the last index is taken. -/
lemma next_of_missing (hT : T.Ordered key) (hold : (T.put R key size row next).old = none) :
    CacheFile.indexLimit ≤ (T.put R key size row next).next := by
  have hshort : ∀ top, (T.top.put R key size row next).1 = .short top →
      CacheFile.indexLimit ≤ (T.top.put R key size row next).2 :=
    fun _ => put_exhausted R hT bot_le (WithTop.coe_lt_top _)
  rw [put] at hold ⊢
  generalize T.top.put R key size row next = grown at hshort hold
  obtain ⟨⟨old', top⟩ | ⟨l, sep, r⟩ | top, next'⟩ := grown
  · cases hold
  · simp only at hold ⊢
    split at hold
    · rename_i hnext
      rwa [if_pos hnext]
    · cases hold
  · exact hshort _ rfl

variable (key size) in
/-- The pages of the tree are those of before and, from the next index on, new ones. None is
lost unless a page was missing. -/
theorem accounted_put (T : TreeShape ρ) (row : ρ) (next : ℕ) :
    ∃ lost, ((T.put R key size row next).old ≠ none → lost = []) ∧
      Accounted T.indexes (T.put R key size row next).tree.indexes lost next
        (T.put R key size row next).next := by
  obtain ⟨lost, hlost, hle, hcount⟩ := Shape.accounted_put R key size T.top row next
  rw [put]
  generalize T.top.put R key size row next = grown at hlost hle hcount
  obtain ⟨⟨old', top⟩ | ⟨l, sep, r⟩ | top, next'⟩ := grown
  · exact ⟨lost, fun _ => hlost trivial, hle, hcount⟩
  · obtain rfl : lost = [] := hlost trivial
    simp only [Grown.indexes, List.count_append, List.count_nil] at hle hcount ⊢
    split
    · refine ⟨r.indexes, fun hold => absurd rfl hold, hle, fun i => ?_⟩
      have := hcount i
      simp only [indexes] at this ⊢
      omega
    · rename_i hnext
      refine ⟨[], fun _ => rfl, hle.trans (Nat.le_succ _), fun i => ?_⟩
      have := hcount i
      have hfresh := fresh_add hle (show next' ≤ next' + 1 by omega) i
      rw [fresh_succ] at hfresh
      simp only [indexes, indexes_inner, List.flatMap_cons, List.flatMap_nil, List.append_nil,
        List.count_cons, List.count_append, List.count_nil, index_nodeId R hnext, beq_iff_eq] at this ⊢
      omega
  · exact ⟨lost, fun hold => absurd rfl hold, hle, hcount⟩

variable (key size) in
/-- Every page of the tree is that of one node at most. -/
lemma count_put_le (T : TreeShape ρ) (row : ρ) (next : ℕ) :
    next ≤ (T.put R key size row next).next ∧
      ∀ i, (T.put R key size row next).tree.indexes.count i
        ≤ T.indexes.count i + fresh next (T.put R key size row next).next i := by
  obtain ⟨lost, -, hle, hcount⟩ := accounted_put R key size T row next
  exact ⟨hle, fun i => (Nat.le_add_right _ _).trans (hcount i).le⟩

end TreeShape

end PageCatalog
