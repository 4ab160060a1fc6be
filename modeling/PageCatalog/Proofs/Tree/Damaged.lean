import Mathlib.Tactic
import PageCatalog.Proofs.Tree.Making

/-!
Steps on pages with anything in them.

A page that was damaged may say of itself that it is a node. A tree believes it no further than
that the number of its keys fits into it, and then every step on the page stays inside it: it
succeeds, or its caller is told why not.

* `Settled`: a question that is answered or refused.
* `RowFormat.Contained`: rows that are read and written inside their slots, whatever is there.
* `Tree.kind_settled`, `Tree.exists_keys`: what is checked of a node.
* `Tree.arrive_settled`, `Tree.content_settled`: what is read from it.
* `Page.KeepsSelf`, `PageM.Tame`: changes inside a page that leave its own id alone.
* `Tree.tame_insertRow`, `tame_replaceRow`, `tame_eraseRow`, `tame_insertSeparator`,
  `tame_eraseLink`: the changes of a node.
* `Tree.fillRightLeaf_ends`, `fillRightInner_ends`, `fillRoot_ends`: new nodes.
-/

namespace PageCatalog

/-- A failure that a caller is told of. -/
def Failure.IsRefusal (e : Failure) : Prop := ∃ error, e = .error error

/-! ### Questions -/

/-- A question is answered or refused. -/
def Settled {α : Type} (r : Except Failure α) : Prop := ∀ e, r = .error e → e.IsRefusal

section Settled

variable {α β : Type} {r : Except Failure α}

/-- An answer is settled. -/
lemma settled_ok (a : α) : Settled (.ok a) := fun _ h => by cases h

/-- A question that is refused with an error is settled. -/
lemma settled_throw (e : Error) : Settled (throw (.error e) : Except Failure α) := fun _ h => by
  cases h
  exact ⟨e, rfl⟩

lemma Settled.of_eq_ok {a : α} (h : r = .ok a) : Settled r := h ▸ settled_ok a

/-- Two questions asked one after the other, the second one where the first is answered. -/
lemma Settled.bind {f : α → Except Failure β} (h : Settled r) (hf : ∀ a, r = .ok a → Settled (f a)) :
    Settled (r >>= f) := by
  cases r with
  | error e => exact fun e' he' => by cases he'; exact h e rfl
  | ok a => exact hf a rfl

lemma Settled.map (h : Settled r) (f : α → β) : Settled (f <$> r) := by
  cases r with
  | error e => exact fun e' he' => by cases he'; exact h e rfl
  | ok a => exact settled_ok _

/-- A question asked of every number of a list is settled if each of them is, by induction on the
list. -/
lemma settled_mapM {f : ℕ → Except Failure α} (is : List ℕ) (hf : ∀ i ∈ is, Settled (f i)) :
    Settled (is.mapM f) := by
  induction is with
  | nil => exact settled_ok _
  | cons i is ih =>
      rw [List.mapM_cons]
      refine (hf i List.mem_cons_self).bind fun a _ => ?_
      exact (ih fun j hj => hf j (List.mem_cons_of_mem i hj)).bind fun as _ => settled_ok _

end Settled

/-! ### Rows -/

/-- Whatever is in a slot, what is done there with rows stays inside the slot. -/
structure RowFormat.Contained {ρ : Type} (R : RowFormat ρ) : Prop where
  compare : ∀ {p : Page} {a : ℕ} (row : ρ), a + R.leaf.width ≤ p.size →
    ∃ o, R.compareAt p a row = .ok o
  load : ∀ {p : Page} {a : ℕ}, a + R.leaf.width ≤ p.size → Settled (R.load p a)
  store : ∀ {p : Page} {a : ℕ} (row : ρ), a + R.leaf.width ≤ p.size →
    Settled (R.store p a row) ∧
      ∀ q, R.store p a row = .ok q → p.SameOutside a (a + R.leaf.width) q
  copy : ∀ {p src : Page} {a b : ℕ}, a + R.leaf.width ≤ p.size → b + R.leaf.width ≤ src.size →
    Settled (R.copy p a src b) ∧
      ∀ q, R.copy p a src b = .ok q → p.SameOutside a (a + R.leaf.width) q

namespace Entry

variable {p : Page} {a : ℕ}

/-- An entry is read from any slot, or refused for the length of its name. -/
lemma load_settled (ha : a + slotWidth ≤ p.size) : Settled (load p a) := by
  have hwidth : slotWidth = 1 + longestName + 8 := rfl
  rw [load_eq (show a < p.size by omega)]
  split
  · exact settled_throw _
  · exact settled_ok _

/-- A write into a slot is refused or stays inside the slot. -/
lemma store_contained (e : Entry) (ha : a + slotWidth ≤ p.size) :
    Settled (store p a e) ∧ ∀ q, store p a e = .ok q → p.SameOutside a (a + slotWidth) q := by
  -- A name that is too long is refused before anything is written.
  rcases Nat.lt_or_ge longestName e.name.length with hlong | hshort
  · rw [store_of_long hlong]
    exact ⟨settled_throw _, fun _ h => by cases h⟩
  · obtain ⟨bs, q, hlen, hsplice, hstore, -⟩ := exists_store hshort ha
    rw [hstore]
    refine ⟨settled_ok q, fun q' hq' => ?_⟩
    obtain rfl := Except.ok.inj hq'
    exact (Page.sameOutside_splice hsplice).mono le_rfl (by omega)

/-- Entries stay inside their slots: a name is compared up to the longest one whatever its length
byte says, and only names that are not too long are copied. -/
lemma contained : RowFormat.entries.Contained where
  compare {p a} row ha := by
    change a + slotWidth ≤ p.size at ha
    have hwidth : slotWidth = 1 + longestName + 8 := rfl
    change ∃ o, compareAt p a row = .ok o
    -- The length byte is cut down to the longest name, so the name lies inside the slot.
    rw [compareAt, nameAt, Page.number_region (by omega)]
    have hslice : p.slice (a + 1) (min (Bytes.toNat (p.region a 1)) longestName) = .ok _ :=
      Page.slice_region (by omega)
    exact ⟨_, by simp only [bind, Except.bind, hslice]; rfl⟩
  load ha := load_settled ha
  store e ha := store_contained e ha
  copy {p src a b} ha hb := by
    change Settled (copy p a src b) ∧ ∀ q, copy p a src b = .ok q → p.SameOutside a (a + slotWidth) q
    rw [copy_eq]
    rcases hload : load src b with reason | e
    · exact ⟨fun _ he => by cases he; exact load_settled hb _ hload, fun _ h => by cases h⟩
    · exact store_contained e ha

end Entry

namespace RowFormat

/-- Keys stay inside their slots, which hold the eight bytes of a key and more. -/
lemma keys_contained {width : ℕ} (hwidth : 8 ≤ width) : (keys width).Contained where
  compare {p a} row ha := by
    change a + width ≤ p.size at ha
    have hload : loadKey p a = .ok _ := loadKey_region (by omega)
    exact ⟨_, congrArg (Except.map fun k : UInt64 => compare k.toNat row.toNat) hload⟩
  load {p a} ha := by
    change a + width ≤ p.size at ha
    exact Settled.of_eq_ok (loadKey_region (by omega))
  store {p a} row ha := by
    change a + width ≤ p.size at ha
    obtain ⟨q, hq⟩ := Page.exists_splice p a (Bytes.ofNat 8 row.toNat)
      (by rw [Bytes.length_ofNat]; omega)
    refine ⟨Settled.of_eq_ok hq, fun q' hq' => ?_⟩
    have hsame := Page.sameOutside_splice hq'
    rw [Bytes.length_ofNat] at hsame
    exact hsame.mono le_rfl (Nat.add_le_add_left hwidth a)
  copy {p src a b} ha hb := by
    change a + width ≤ p.size at ha
    change b + width ≤ src.size at hb
    have hlen : (src.region b 8).length = 8 := Page.length_region_of_le (by omega)
    obtain ⟨q, hq⟩ := Page.exists_splice p a (src.region b 8) (by omega)
    have hcopy : (keys width).copy p a src b = .ok q := by
      change (src.slice b 8).bind (p.splice a) = .ok q
      rw [Page.slice_region (by omega)]
      exact hq
    refine ⟨Settled.of_eq_ok hcopy, fun q' hq' => ?_⟩
    obtain rfl := Except.ok.inj (hcopy.symm.trans hq')
    have hsame := Page.sameOutside_splice hq
    rw [hlen] at hsame
    exact hsame.mono le_rfl (Nat.add_le_add_left hwidth a)

/-- Both row formats stay inside their slots. -/
lemma Supported.contained {ρ κ : Type} [LinearOrder κ] {R : RowFormat ρ} {key : ρ → κ}
    (h : R.Supported key) : R.Contained := by
  cases h with
  | entries => exact Entry.contained
  | keys width hwidth =>
      refine keys_contained ?_
      fin_cases hwidth <;> decide

end RowFormat

/-! ### What a node is asked -/

namespace Page

variable {p : Page}

/-- The slots of as many keys as fit into a page end inside it. -/
lemma Usual.offset_le {L : NodeLayout} {n : ℕ} (hp : p.Usual) (hn : n ≤ L.capacity p.size) :
    L.offset n ≤ p.size := (L.offset_mono hn).trans (L.offset_capacity_le hp.header_le)

/-- Every page says some number of keys. -/
lemma Usual.exists_count (hp : p.Usual) : ∃ n, Node.count p = .ok n :=
  ⟨_, number_region (by have := hp.1; omega)⟩

/-- Every page has a header that can be told to the caller. -/
lemma Usual.exists_header (hp : p.Usual) : ∃ header, Node.header p = .ok header := by
  have hsize := hp.1
  have htag : Node.tag p = .ok _ := number_region (by omega)
  have hversion : Node.version p = .ok _ := number_region (by omega)
  have hcount : Node.count p = .ok _ := number_region (by omega)
  have hself : Node.self p = .ok _ := pageId_region (by omega)
  exact ⟨_, by rw [Node.header, htag, hversion, hcount, hself]; rfl⟩

end Page

namespace Tree

variable {ρ κ : Type} [LinearOrder κ] (t : Tree ρ) {key : ρ → κ} {p : Page} {id : PageId}
  {L : NodeLayout} {row : ρ} {i n : ℕ}

/-- The layout of the nodes of a kind. -/
def layout : NodeKind → NodeLayout
  | .leaf => t.rows.leaf
  | .inner => t.rows.inner

/-- The type and the version of a page are in order, or the caller is told which of them is not.
-/
lemma check_settled (hp : p.Usual) (L : NodeLayout) : Settled (L.check p) := by
  have hsize := hp.1
  obtain ⟨tag, htag⟩ : ∃ tag, Node.tag p = .ok tag := ⟨_, Page.number_region (by omega)⟩
  obtain ⟨version, hversion⟩ : ∃ version, Node.version p = .ok version :=
    ⟨_, Page.number_region (by omega)⟩
  simp only [NodeLayout.check, htag, hversion, bind, Except.bind, pure, Except.pure]
  split
  · exact settled_throw _
  · split
    · exact settled_throw _
    · exact settled_ok _

/-- The checks of a page that carries the type of a kind of nodes. -/
def accept (k : NodeKind) (id : PageId) (p : Page) : Except Failure NodeKind := do
  (t.layout k).check p
  let self ← Node.self p
  if self ≠ id then throw (.error (.corrupted (.selfId id self)))
  let count ← Node.count p
  let most := (t.layout k).capacity p.size
  if most < count then throw (.error (.corrupted (.keyCount id t.name count most)))
  return k

/-- What is known of a page that passes for a node. -/
structure Passes (k : NodeKind) (id : PageId) (n : ℕ) (p : Page) : Prop where
  self : Node.self p = .ok id
  count : Node.count p = .ok n
  le : n ≤ (t.layout k).capacity p.size

/-- A page with the type of a kind of nodes is refused, or its id and its number of keys are in
order. -/
lemma accept_cases (hp : p.Usual) (k : NodeKind) (id : PageId) :
    (∃ e, t.accept k id p = .error (.error e)) ∨ t.accept k id p = .ok k ∧ ∃ n, t.Passes k id n p := by
  have hsize := hp.1
  obtain ⟨n, hcount⟩ := hp.exists_count
  obtain ⟨self, hself⟩ : ∃ self, Node.self p = .ok self := ⟨_, Page.pageId_region (by omega)⟩
  cases hcheck : (t.layout k).check p with
  | error e =>
      obtain ⟨e, rfl⟩ := check_settled hp _ e hcheck
      exact .inl ⟨e, by rw [accept, hcheck]; rfl⟩
  | ok =>
      simp only [accept, hcheck, hself, hcount, bind, Except.bind, pure, Except.pure]
      -- The type is in order. Next come the page's own id and, with that, the number of its keys.
      by_cases hid : self = id
      · subst hid
        by_cases hle : (t.layout k).capacity p.size < n
        · exact .inl ⟨_, by rw [if_neg (not_not.mpr rfl), if_pos hle]; rfl⟩
        · refine .inr ⟨?_, n, hself, hcount, Nat.not_lt.mp hle⟩
          rw [if_neg (not_not.mpr rfl), if_neg hle]
      · exact .inl ⟨_, by rw [if_pos hid]; rfl⟩

/-- A page is refused as a node, or it says of itself to be the one that is asked for, and to have
no more keys than fit into it. -/
lemma kind_cases (hp : p.Usual) (id : PageId) :
    (∃ e, t.kind id p = .error (.error e)) ∨ ∃ k n, t.kind id p = .ok k ∧ t.Passes k id n p := by
  have hsize := hp.1
  obtain ⟨header, hheader⟩ := hp.exists_header
  obtain ⟨tag, htag⟩ : ∃ tag, Node.tag p = .ok tag := ⟨_, Page.number_region (by omega)⟩
  have haccept : ∀ k, t.kind id p = t.accept k id p →
      (∃ e, t.kind id p = .error (.error e)) ∨ ∃ k n, t.kind id p = .ok k ∧ t.Passes k id n p := by
    intro k hk
    rw [hk]
    exact (t.accept_cases hp k id).imp_right fun ⟨hok, n, hn⟩ => ⟨k, n, hok, hn⟩
  -- The tag chooses the kind. With a tag of neither kind the header is told to the caller.
  by_cases hleaf : tag = t.rows.leaf.tag
  · exact haccept .leaf (by rw [kind, htag]; simp only [bind, Except.bind, if_pos hleaf]; rfl)
  by_cases hinner : tag = t.rows.inner.tag
  · refine haccept .inner ?_
    rw [kind, htag]
    simp only [bind, Except.bind, if_neg hleaf, if_pos hinner]
    rfl
  · refine .inl ⟨.corrupted (.notANode id t.name header), ?_⟩
    rw [kind, htag]
    simp only [bind, Except.bind, if_neg hleaf, if_neg hinner, hheader]
    rfl

/-- Asking what kind of node a page is is settled, whatever is in it. -/
lemma kind_settled (hp : p.Usual) (id : PageId) : Settled (t.kind id p) := by
  obtain ⟨e, he⟩ | ⟨k, n, hk, -⟩ := t.kind_cases hp id
  · exact he ▸ settled_throw e
  · exact Settled.of_eq_ok hk

/-- A page that passes for a node. -/
lemma passes_of_kind {k : NodeKind} (hp : p.Usual) (h : t.kind id p = .ok k) :
    ∃ n, t.Passes k id n p := by
  obtain ⟨e, he⟩ | ⟨k', n, hk, hn⟩ := t.kind_cases hp id
  · rw [h] at he
    cases he
  · obtain rfl := Except.ok.inj (h.symm.trans hk)
    exact ⟨n, hn⟩

variable {t} (hR : t.rows.Supported key)
include hR

/-- Separators take as much room as the rows that they are cut from. -/
lemma layout_width (k : NodeKind) : (t.layout k).width = t.rows.leaf.width := by
  cases k with
  | leaf => rfl
  | inner => exact hR.lawful.inner_width

/-- The slots of a node lie inside its page. -/
lemma slot_le (hp : p.Usual) (k : NodeKind) (hi : i < (t.layout k).capacity p.size) :
    (t.layout k).offset i + t.rows.leaf.width ≤ p.size := by
  have hle := hp.offset_le (L := t.layout k) hi
  rwa [NodeLayout.offset_succ, layout_width hR] at hle

/-- A row is read from any slot that fits into the page, or refused. -/
lemma loadSlot_settled (hp : p.Usual) (k : NodeKind) (hi : i < (t.layout k).capacity p.size) :
    Settled (t.rows.loadSlot (t.layout k) i p) := hR.contained.load (slot_le hR hp k hi)

end Tree

/-- A place among `n` slots, or behind the last one. -/
def Position.Within : Position → ℕ → Prop
  | .found i, n => i < n
  | .gap i, n => i ≤ n

/-- The child to go on at is one of those that a node with so many keys has. -/
lemma Position.Within.childAt_le {at_ : Position} {n : ℕ} (h : at_.Within n) : Tree.childAt at_ ≤ n := by
  cases at_ with
  | found i => exact h
  | gap i => exact h

namespace Tree

variable {ρ κ : Type} [LinearOrder κ] {t : Tree ρ} {key : ρ → κ} {p q : Page} {id child : PageId}
  {row : ρ} {i j n m : ℕ}

/-- A search comes to a place, whatever is in the slots. -/
lemma exists_searchBetween (hR : t.rows.Contained) {L : NodeLayout}
    (hL : L.width = t.rows.leaf.width) (hm : m ≤ L.capacity p.size) (row : ρ) (n lo hi : ℕ)
    (hle : lo ≤ hi) (hhi : hi ≤ m) :
    ∃ at_, t.searchBetween L p row n lo hi = .ok at_ ∧ at_.Within m := by
  -- Nothing is known of the order of the slots: the invariant is only that both bounds stay among
  -- them.
  induction n generalizing lo hi with
  | zero => exact ⟨_, rfl, hle.trans hhi⟩
  | succ n ih =>
      rw [searchBetween]
      by_cases hlt : lo < hi
      · rw [if_pos hlt]
        set mid := lo + (hi - lo) / 2 with hmid
        have hslot := L.offset_succ_le (show mid < L.capacity p.size by omega)
        rw [L.offset_succ, hL] at hslot
        -- The slot in the middle lies inside the page, so the comparison has an outcome.
        obtain ⟨o, ho⟩ := hR.compare row hslot
        have hcompare : t.rows.compareSlot L mid p row = .ok o := ho
        simp only [hcompare, bind, Except.bind]
        cases o with
        | lt => exact ih (mid + 1) hi (by omega) hhi
        | gt => exact ih lo mid (by omega) (by omega)
        | eq => exact ⟨_, rfl, show mid < m by omega⟩
      · rw [if_neg hlt]
        exact ⟨_, rfl, hle.trans hhi⟩

variable (hR : t.rows.Supported key)
include hR

/-- A page that passes for a node can be searched, in order or not. -/
lemma exists_search {k : NodeKind} (h : t.Passes k id n p) (row : ρ) :
    ∃ at_, t.search (t.layout k) p row = .ok at_ ∧ at_.Within n := by
  obtain ⟨at_, hsearch, hwithin⟩ := exists_searchBetween hR.contained (layout_width hR k) h.le row
    n 0 n (Nat.zero_le _) le_rfl
  exact ⟨at_, by rw [search, h.count]; exact hsearch, hwithin⟩

/-- The links of an inner node lie inside its page. -/
lemma exists_link (hp : p.Usual) (hi : i ≤ t.rows.inner.capacity p.size) :
    ∃ child, Node.link t.rows.inner i p = .ok child := by
  have hle := t.rows.inner.linkOffset_le hR.lawful.inner_isLeaf hp.header_le (i := i + 1)
    (Nat.succ_le_succ hi)
  rw [NodeLayout.linkOffset_succ] at hle
  exact ⟨_, Page.pageId_region hle⟩

/-- What a search for a row can meet. -/
inductive Meets (t : Tree ρ) (id : PageId) (p : Page) : Arrival → Prop
  | leaf {n : ℕ} {at_ : Position} (h : t.Passes .leaf id n p) (hat : at_.Within n) : Meets t id p (.leaf at_)
  | inner {n i : ℕ} {child : PageId} (h : t.Passes .inner id n p) (hi : i ≤ n)
      (hlink : Node.link t.rows.inner i p = .ok child) : Meets t id p (.inner i child)

/-- A search is refused at a page, or goes on with something that lies inside it. -/
lemma arrive_cases (hp : p.Usual) (row : ρ) (id : PageId) :
    (∃ e, t.arrive row id p = .error (.error e)) ∨ ∃ a, t.arrive row id p = .ok a ∧ t.Meets id p a := by
  obtain ⟨e, he⟩ | ⟨k, n, hk, hn⟩ := t.kind_cases hp id
  · exact .inl ⟨e, by rw [arrive, he]; rfl⟩
  obtain ⟨at_, hsearch, hat⟩ := exists_search hR hn row
  cases k with
  | leaf =>
      have hsearch : t.search t.rows.leaf p row = .ok at_ := hsearch
      refine .inr ⟨_, ?_, .leaf hn hat⟩
      simp only [arrive, hk, hsearch, bind, Except.bind]
      rfl
  | inner =>
      have hsearch : t.search t.rows.inner p row = .ok at_ := hsearch
      obtain ⟨child, hlink⟩ := exists_link hR hp (hat.childAt_le.trans hn.le)
      refine .inr ⟨_, ?_, .inner hn hat.childAt_le hlink⟩
      simp only [arrive, hk, hsearch, hlink, bind, Except.bind]
      rfl

/-- Coming to a page in a search is settled, whatever is in it. -/
lemma arrive_settled (hp : p.Usual) (row : ρ) (id : PageId) : Settled (t.arrive row id p) := by
  obtain ⟨e, he⟩ | ⟨a, ha, -⟩ := arrive_cases hR hp row id
  · exact he ▸ settled_throw e
  · exact Settled.of_eq_ok ha

/-- What a search came to at a page lies inside the page. -/
lemma meets_of_arrive {a : Arrival} (hp : p.Usual) (h : t.arrive row id p = .ok a) : t.Meets id p a := by
  obtain ⟨e, he⟩ | ⟨a', ha, hmeets⟩ := arrive_cases hR hp row id
  · rw [h] at he
    cases he
  · obtain rfl := Except.ok.inj (h.symm.trans ha)
    exact hmeets

/-- The content of a page is read, or it is told what is wrong with it. -/
lemma content_settled (hp : p.Usual) (id : PageId) : Settled (t.content id p) := by
  obtain ⟨n, hcount⟩ := hp.exists_count
  refine (Settled.of_eq_ok hcount).bind fun n' hn' => (t.kind_settled hp id).bind fun k hk => ?_
  obtain ⟨m, hm⟩ := t.passes_of_kind hp hk
  obtain rfl := Except.ok.inj (hn'.symm.trans hm.count)
  -- The count that was read passed the check, so every slot and every link up to it lies inside
  -- the page.
  cases k with
  | leaf =>
      refine (settled_mapM _ fun i hi => loadSlot_settled hR hp .leaf ?_).map _
      exact (List.mem_range.mp hi).trans_le hm.le
  | inner =>
      refine (settled_mapM _ fun i hi => ?_).map _
      obtain ⟨child, hchild⟩ := exists_link hR hp
        ((Nat.lt_succ_iff.mp (List.mem_range.mp hi)).trans hm.le)
      exact Settled.of_eq_ok hchild

/-- Asking a root for its only child is settled, whatever is in its page. -/
lemma onlyChild?_settled (hp : p.Usual) (id : PageId) : Settled (t.onlyChild? id p) := by
  obtain ⟨n, hcount⟩ := hp.exists_count
  obtain ⟨child, hchild⟩ := exists_link hR hp (Nat.zero_le (t.rows.inner.capacity p.size))
  refine (t.kind_settled hp id).bind fun k _ => ?_
  cases k with
  | leaf => exact settled_ok _
  | inner =>
      refine (Settled.of_eq_ok hcount).bind fun n _ => ?_
      split
      · exact settled_ok _
      · exact (Settled.of_eq_ok hchild).map _

end Tree

/-! ### Changes of a node -/

/-- A page has kept its size, and what it says to be its own id. -/
structure Page.KeepsSelf (p q : Page) : Prop where
  size : q.size = p.size
  self : q.region 8 8 = p.region 8 8

lemma Page.KeepsSelf.refl (p : Page) : p.KeepsSelf p := ⟨rfl, rfl⟩

lemma Page.KeepsSelf.trans {p q r : Page} (h : p.KeepsSelf q) (h' : q.KeepsSelf r) : p.KeepsSelf r :=
  ⟨h'.size.trans h.size, h'.self.trans h.self⟩

/-- A change that stays on one side of the own id leaves that alone. -/
lemma Page.SameOutside.keepsSelf {p q : Page} {lo hi : ℕ} (h : p.SameOutside lo hi q)
    (hapart : 16 ≤ lo ∨ hi ≤ 8) : p.KeepsSelf q :=
  ⟨h.size, h.region (by omega)⟩

/-- A change succeeds or is refused. It keeps the size of the page and its own id, also where it
is refused. -/
def PageM.Tame {α : Type} (m : PageM α) (p : Page) : Prop :=
  Ends m p (fun _ q => p.KeepsSelf q) (fun e q => e.IsRefusal ∧ p.KeepsSelf q)

namespace PageM

variable {α β : Type} {p : Page}

/-- Two tame changes one after the other: what the second one is asked of keeps the id of the
first. -/
lemma Tame.bind {m : PageM α} {f : α → PageM β} (hm : m.Tame p)
    (hf : ∀ a q, p.KeepsSelf q → (f a).Tame q) : (m >>= f).Tame p :=
  Ends.bind hm fun a q hq => (hf a q hq).mono (fun _ _ h => hq.trans h) fun _ _ h => ⟨h.1, hq.trans h.2⟩

lemma tame_pure (a : α) (p : Page) : (pure a : PageM α).Tame p := Page.KeepsSelf.refl p

/-- A question that is settled leaves the page as it is. -/
lemma tame_look {f : Page → Except Failure α} (h : Settled (f p)) : (look f).Tame p := by
  rw [Tame, Ends, look]
  cases hf : f p with
  | ok a => exact .refl p
  | error e => exact ⟨h e hf, .refl p⟩

/-- A change that is refused leaves the page as it is, one that is made keeps its own id. -/
lemma tame_change {f : Page → Except Failure Page} (h : Settled (f p))
    (hq : ∀ q, f p = .ok q → p.KeepsSelf q) : (change f).Tame p := by
  rw [Tame, Ends, change]
  cases hf : f p with
  | ok q => exact hq q hf
  | error e => exact ⟨h e hf, .refl p⟩

/-- A change that is made behind the header, or before the own id, is tame. -/
lemma tame_of_run {m : PageM α} {a : α} {q : Page} {lo hi : ℕ} (h : m p = (.ok a, q))
    (hsame : p.SameOutside lo hi q) (hapart : 16 ≤ lo ∨ hi ≤ 8) : m.Tame p :=
  Ends.of_ok h (hsame.keepsSelf hapart)

end PageM

namespace Tree

open PageM

variable {ρ κ : Type} [LinearOrder κ] {t : Tree ρ} {key : ρ → κ} {p q src : Page} {id child : PageId}
  {row : ρ} {i j n m : ℕ} {L : NodeLayout}

/-- The number of keys is written and read back. -/
lemma setCount_run (hp : p.Usual) (hn : n < 256 ^ 2) :
    ∃ q, Node.setCount n p = (.ok (), q) ∧ p.KeepsSelf q ∧ Node.count q = .ok n := by
  have hsize := hp.1
  obtain ⟨q, hq⟩ := Page.exists_splice p 4 (Bytes.ofNat 2 n) (by rw [Bytes.length_ofNat]; omega)
  have hsame := Page.sameOutside_splice hq
  rw [Bytes.length_ofNat] at hsame
  exact ⟨q, change_ok hq, hsame.keepsSelf (.inr (by omega)), Page.number_setNumber hq hn⟩

/-- The number of keys stands before the own id. -/
lemma tame_setCount (hp : p.Usual) (hn : n < 256 ^ 2) : (Node.setCount n).Tame p := by
  obtain ⟨q, hrun, hself, -⟩ := setCount_run hp hn
  exact Ends.of_ok hrun hself

/-- Moving slots up stays behind the header. -/
lemma tame_openSlot (hi : i ≤ n) (hn : L.offset (n + 1) ≤ p.size) : (Node.openSlot L i n).Tame p := by
  obtain ⟨q, hrun, hsame, -⟩ := Node.exists_openSlot hi hn
  exact tame_of_run hrun hsame (.inl (L.header_le_offset _))

/-- Moving slots down stays behind the header. -/
lemma tame_closeSlot (hi : i < n) (hn : L.offset n ≤ p.size) : (Node.closeSlot L i n).Tame p := by
  obtain ⟨q, hrun, hsame, -⟩ := Node.exists_closeSlot hi hn
  exact tame_of_run hrun hsame (.inl (L.header_le_offset _))

/-- The links of a node stand behind its header. -/
lemma header_le_linkOffset (L : NodeLayout) (size i : ℕ) : 16 ≤ L.linkOffset size i := by
  rw [L.linkOffset_eq]
  exact (L.header_le_offset _).trans (Nat.le_add_right _ _)

section Rows

variable (hR : t.rows.Supported key)
include hR

/-- The links of as many children as a node can have end inside its page. -/
lemma linkOffset_le (hp : p.Usual) (hi : i ≤ t.rows.inner.capacity p.size + 1) :
    t.rows.inner.linkOffset p.size i ≤ p.size :=
  t.rows.inner.linkOffset_le hR.lawful.inner_isLeaf hp.header_le hi

/-- A link is written behind the header and inside the page. -/
lemma tame_setLink (hp : p.Usual) (hi : i ≤ t.rows.inner.capacity p.size) (id : PageId) :
    (Node.setLink t.rows.inner i id).Tame p := by
  obtain ⟨q, hrun, hsame, -⟩ := Node.exists_setLink (L := t.rows.inner) (p := p) (i := i) id
    (linkOffset_le hR hp (Nat.succ_le_succ hi))
  exact tame_of_run hrun hsame (.inl (header_le_linkOffset _ _ _))

/-- The links behind a place move up inside the page. -/
lemma tame_insertLink (hp : p.Usual) (hi : i ≤ n) (hn : n ≤ t.rows.inner.capacity p.size) (id : PageId) :
    (Node.insertLink t.rows.inner i n id).Tame p := by
  obtain ⟨q, hrun, hsame, -⟩ := Node.exists_insertLink (L := t.rows.inner) (p := p) id hi
    (linkOffset_le hR hp (Nat.succ_le_succ hn))
  exact tame_of_run hrun hsame (.inl (header_le_linkOffset _ _ _))

/-- The links behind a place move down inside the page. -/
lemma tame_removeLink (hp : p.Usual) (hi : i < n) (hn : n ≤ t.rows.inner.capacity p.size + 1) :
    (Node.removeLink t.rows.inner i n).Tame p := by
  obtain ⟨q, hrun, hsame, -⟩ := Node.exists_removeLink (L := t.rows.inner) (p := p) hi
    (linkOffset_le hR hp hn)
  exact tame_of_run hrun hsame (.inl (header_le_linkOffset _ _ _))

/-- A row is written into a slot inside the page, or refused. -/
lemma tame_storeSlot (hp : p.Usual) (k : NodeKind) (hi : i < (t.layout k).capacity p.size) (row : ρ) :
    (t.rows.storeSlot (t.layout k) i row).Tame p := by
  obtain ⟨hsettled, hsame⟩ := hR.contained.store row (slot_le hR hp k hi)
  exact tame_change hsettled fun q hq => (hsame q hq).keepsSelf (.inl (NodeLayout.header_le_offset _ _))

/-- A row is copied from one page into another, or refused for what is in its slot. -/
lemma tame_copySlot (hp : p.Usual) (hsrc : src.Usual) (k : NodeKind)
    (hi : i < (t.layout k).capacity p.size) (hj : j < (t.layout k).capacity src.size) :
    (t.rows.copySlot (t.layout k) i (t.layout k) src j).Tame p := by
  obtain ⟨hsettled, hsame⟩ := hR.contained.copy (slot_le hR hp k hi) (slot_le hR hsrc k hj)
  exact tame_change hsettled fun q hq => (hsame q hq).keepsSelf (.inl (NodeLayout.header_le_offset _ _))

/-! #### Leaves -/

/-- A row goes into a leaf that is not full. -/
lemma tame_insertRow (hp : p.Usual) (hcount : Node.count p = .ok n) (hi : i ≤ n)
    (hn : n < t.rows.leaf.capacity p.size) (row : ρ) : (t.insertRow i row).Tame p := by
  have hlt : n + 1 < 256 ^ 2 := lt_of_le_of_lt hn (t.rows.leaf.capacity_lt hp.2)
  refine Ends.bind_ok (look_ok hcount) ?_
  -- The slots move up, the row is written into the gap, and the number of keys is counted up.
  refine (tame_openSlot hi (hp.offset_le hn)).bind fun _ q hq => ?_
  have hq' := hp.of_size hq.size
  refine (tame_storeSlot hR hq' .leaf (hq.size.symm ▸ hi.trans_lt hn) row).bind fun _ r hr => ?_
  exact tame_setCount (hq'.of_size hr.size) hlt

/-- A row is written over another one of a leaf. -/
lemma tame_replaceRow (hp : p.Usual) (hi : i < t.rows.leaf.capacity p.size) (row : ρ) :
    (t.replaceRow i row).Tame p := by
  refine (tame_look (loadSlot_settled hR hp .leaf hi)).bind fun old q hq => ?_
  refine (tame_storeSlot hR (hp.of_size hq.size) .leaf (hq.size.symm ▸ hi) row).bind fun _ r _ => ?_
  exact tame_pure _ _

/-- A row is taken out of a leaf, if what stands in its slot can be read. -/
lemma tame_eraseRow (hp : p.Usual) (hcount : Node.count p = .ok n) (hi : i < n)
    (hn : n ≤ t.rows.leaf.capacity p.size) : (t.eraseRow i).Tame p := by
  have hlt : n - 1 < 256 ^ 2 := by
    have := hn.trans_lt (t.rows.leaf.capacity_lt hp.2)
    omega
  -- The row is read before anything moves, and what it says of the page is still needed
  -- afterwards.
  refine Ends.bind (Q := fun _ q => q = p) ?_ ?_
  · have hload := loadSlot_settled hR hp .leaf (hi.trans_le hn)
    cases hold : t.rows.loadSlot t.rows.leaf i p with
    | ok old => exact Ends.of_ok (look_ok hold) rfl
    | error e => exact Ends.of_error (by rw [look, hold]) ⟨hload e hold, .refl p⟩
  · rintro old _ rfl
    refine Ends.bind_ok (look_ok hcount) ?_
    refine (tame_closeSlot hi (hp.offset_le hn)).bind fun _ q hq => ?_
    exact (tame_setCount (hp.of_size hq.size) hlt).bind fun _ r _ => tame_pure _ r

/-! #### Inner nodes -/

/-- A separator and a link go into an inner node that is not full. -/
lemma tame_insertSeparator (hp : p.Usual) (hcount : Node.count p = .ok n) (hi : i ≤ n)
    (hn : n < t.rows.inner.capacity p.size) (sep : ρ) (right : PageId) :
    (t.insertSeparator i sep right).Tame p := by
  have hlt : n + 1 < 256 ^ 2 := lt_of_le_of_lt hn (t.rows.inner.capacity_lt hp.2)
  refine Ends.bind_ok (look_ok hcount) ?_
  -- Every step keeps the size, so the bounds of the first page are those of each of them.
  refine (tame_openSlot hi (hp.offset_le hn)).bind fun _ q hq => ?_
  have hq' := hp.of_size hq.size
  refine (tame_storeSlot hR hq' .inner (hq.size.symm ▸ hi.trans_lt hn) sep).bind fun _ r hr => ?_
  have hr' := hq'.of_size hr.size
  refine (tame_insertLink hR hr' (Nat.succ_le_succ hi) ?_ right).bind fun _ u hu => ?_
  · rw [hr.size, hq.size]
    exact hn
  · exact tame_setCount (hr'.of_size hu.size) hlt

/-- A child is taken out of an inner node, or the node is said to be empty. -/
lemma tame_eraseLink (hp : p.Usual) (hcount : Node.count p = .ok n) (hi : i ≤ n)
    (hn : n ≤ t.rows.inner.capacity p.size) : (t.eraseLink i).Tame p := by
  have hlt : n - 1 < 256 ^ 2 := by
    have := hn.trans_lt (t.rows.inner.capacity_lt hp.2)
    omega
  refine Ends.bind_ok (look_ok hcount) ?_
  -- Without keys there is but one child, and the node is left to be freed as it is.
  by_cases hzero : n = 0
  · simp only [if_pos hzero]
    exact tame_pure true p
  · simp only [if_neg hzero]
    refine (tame_closeSlot (by omega) (hp.offset_le hn)).bind fun _ q hq => ?_
    have hq' := hp.of_size hq.size
    refine (tame_removeLink hR hq' (Nat.lt_succ_of_le hi) ?_).bind fun _ r hr => ?_
    · rw [hq.size]
      exact Nat.succ_le_succ hn
    · exact (tame_setCount (hq'.of_size hr.size) hlt).bind fun _ u _ => tame_pure _ u

/-! #### New nodes -/

/-- A page is made an empty node of a kind, and keeps its size. -/
lemma init_run (hp : p.Usual) (k : NodeKind) (id : PageId) :
    ∃ q, Node.init (t.layout k) id p = (.ok (), q) ∧ q.size = p.size := by
  have hlawful := hR.lawful
  have hlayout : (t.layout k).tag < 256 ^ 2 ∧ 1 ≤ (t.layout k).latest ∧ (t.layout k).latest < 256 ^ 2 := by
    cases k with
    | leaf => exact ⟨hlawful.leaf_tag_lt, hlawful.leaf_latest⟩
    | inner => exact ⟨hlawful.inner_tag_lt, hlawful.inner_latest⟩
  obtain ⟨q, hrun, hsame, -⟩ := Node.exists_init (p := p) id hlayout.1 hlayout.2 hp.header_le
  exact ⟨q, hrun, hsame.size⟩

/-- Slots are copied one by one from another page, by induction on their number. -/
lemma tame_copySlots (hsrc : src.Usual) (k : NodeKind) (n i j : ℕ) (hp : p.Usual)
    (hi : i + n ≤ (t.layout k).capacity p.size) (hj : j + n ≤ (t.layout k).capacity src.size) :
    (t.copySlots (t.layout k) src n i j).Tame p := by
  induction n generalizing i j p with
  | zero => exact tame_pure _ p
  | succ n ih =>
      refine (tame_copySlot hR hp hsrc k (by omega) (by omega)).bind fun _ q hq => ?_
      exact ih (i + 1) (j + 1) (hp.of_size hq.size) (by rw [hq.size]; omega) (by omega)

/-- Links are copied one by one from another page, by induction on their number. -/
lemma tame_copyLinks (hsrc : src.Usual) (n i j : ℕ) (hp : p.Usual)
    (hi : i + n ≤ t.rows.inner.capacity p.size + 1) (hj : j + n ≤ t.rows.inner.capacity src.size + 1) :
    (t.copyLinks src n i j).Tame p := by
  induction n generalizing i j p with
  | zero => exact tame_pure _ p
  | succ n ih =>
      obtain ⟨link, hlink⟩ := exists_link hR hsrc (i := j) (by omega)
      -- The link is read from the other page, which no step here changes.
      refine (tame_look (f := fun _ => Node.link t.rows.inner j src)
        (Settled.of_eq_ok hlink)).bind fun link q hq => ?_
      have hq' := hp.of_size hq.size
      refine (tame_setLink hR hq' (by rw [hq.size]; omega) link).bind fun _ r hr => ?_
      exact ih (i + 1) (j + 1) (hq'.of_size hr.size) (by rw [hr.size, hq.size]; omega) (by omega)

/-- A new node that is filled up with what stands in another page, and gets a number of keys. -/
lemma fill_ends (hp : p.Usual) (k : NodeKind) (id : PageId) {m : PageM Unit}
    (hm : ∀ q : Page, q.size = p.size → m.Tame q) (hn : n < 256 ^ 2) :
    Ends (do Node.init (t.layout k) id; m; Node.setCount n : PageM Unit) p
      (fun _ q => Node.count q = .ok n) (fun e _ => e.IsRefusal) := by
  obtain ⟨q, hrun, hq⟩ := init_run hR hp k id
  refine Ends.bind_ok hrun (Ends.bind ((hm q hq).mono_error fun _ _ h => h.1) ?_)
  intro _ r hr
  obtain ⟨u, hcount, -, hu⟩ := setCount_run ((hp.of_size hq).of_size hr.size) hn
  exact Ends.of_ok hcount hu

/-- The right half of a leaf takes over the rows from a place on, unless one of them cannot be
read. -/
lemma fillRightLeaf_ends (hp : p.Usual) (hsrc : src.size = p.size) (id : PageId)
    (hn : n ≤ t.rows.leaf.capacity p.size) (hm : m ≤ n) :
    Ends (t.fillRightLeaf id src m n) p (fun _ q => Node.count q = .ok (n - m))
      (fun e _ => e.IsRefusal) := by
  have hlt := t.rows.leaf.capacity_lt hp.2
  refine fill_ends hR hp .leaf id (fun q hq => ?_) (by omega)
  exact tame_copySlots hR (hp.of_size hsrc) .leaf _ _ _ (hp.of_size hq)
    (by change 0 + (n - m) ≤ t.rows.leaf.capacity q.size; rw [hq]; omega)
    (by change m + (n - m) ≤ t.rows.leaf.capacity src.size; rw [hsrc]; omega)

/-- The right half of an inner node takes over the separators and the links behind a place. -/
lemma fillRightInner_ends (hp : p.Usual) (hsrc : src.size = p.size) (id : PageId)
    (hn : n ≤ t.rows.inner.capacity p.size) (hm : m < n) :
    Ends (t.fillRightInner id src m n) p (fun _ q => Node.count q = .ok (n - m - 1))
      (fun e _ => e.IsRefusal) := by
  have hlt := t.rows.inner.capacity_lt hp.2
  have hfill := fill_ends hR hp .inner id (n := n - m - 1)
    (m := do t.copySlots t.rows.inner src (n - m - 1) 0 (m + 1); t.copyLinks src (n - m) 0 (m + 1))
    (fun q hq => ?_) (by omega)
  · simpa only [fillRightInner, layout, bind_assoc] using hfill
  · have hq' := hp.of_size hq
    refine (tame_copySlots hR (hp.of_size hsrc) .inner _ _ _ hq'
      (by change 0 + (n - m - 1) ≤ t.rows.inner.capacity q.size; rw [hq]; omega)
      (by change m + 1 + (n - m - 1) ≤ t.rows.inner.capacity src.size; rw [hsrc]; omega)).bind
      fun _ r hr => ?_
    exact tame_copyLinks hR (hp.of_size hsrc) _ _ _ (hq'.of_size hr.size)
      (by rw [hr.size, hq]; omega) (by rw [hsrc]; omega)

/-- A new root takes the separator and the links to both halves. -/
lemma fillRoot_ends (hp : p.Usual) (hroomy : t.rows.Roomy p.size) (id left right : PageId) (sep : ρ) :
    Ends (t.fillRoot id left sep right) p (fun _ _ => True) (fun e _ => e.IsRefusal) := by
  have hroom := hroomy.inner
  have hfill := fill_ends hR hp .inner id (n := 1) (m := do
      t.rows.storeSlot t.rows.inner 0 sep
      Node.setLink t.rows.inner 0 left
      Node.setLink t.rows.inner 1 right) (fun q hq => ?_) (by decide)
  · refine Ends.mono_ok (Q := fun _ q => Node.count q = .ok 1) ?_ fun _ _ _ => trivial
    simpa only [fillRoot, layout, bind_assoc] using hfill
  · have hq' := hp.of_size hq
    refine (tame_storeSlot hR hq' .inner (by
      change 0 < t.rows.inner.capacity q.size
      rw [hq]
      exact hroom) sep).bind fun _ r hr => ?_
    have hr' := hq'.of_size hr.size
    refine (tame_setLink hR hr' (Nat.zero_le _) left).bind fun _ u hu => ?_
    refine tame_setLink hR (hr'.of_size hu.size) ?_ right
    rw [hu.size, hr.size, hq]
    exact hroom

/-! #### Roots -/

/-- A root is made an empty leaf, or is one already, or is refused as a node. -/
lemma clearRoot_ends (hp : p.Usual) (root : PageId) :
    Ends (t.clearRoot root) p (fun _ _ => True) (fun e _ => e.IsRefusal) := by
  cases hk : t.kind root p with
  | error e => exact Ends.of_error (run_bind_error (by rw [look, hk]) _) (t.kind_settled hp root e hk)
  | ok k =>
      refine Ends.bind_ok (look_ok hk) ?_
      cases k with
      | leaf => trivial
      | inner =>
          obtain ⟨q, hrun, -⟩ := init_run hR hp .leaf root
          exact Ends.bind_ok hrun trivial

end Rows

/-- The level of the meta page is a number of four bytes, whatever is in the page. -/
lemma exists_level (hp : p.Usual) : ∃ n, MetaPage.level p = .ok n ∧ n < MetaPage.levelLimit := by
  have hsize := hp.1
  have hlt := Bytes.toNat_lt (p.region 8 4)
  rw [Page.length_region_of_le (by omega)] at hlt
  exact ⟨_, Page.number_region (by omega), hlt⟩

/-- A root is entered one level up, unless the level is the greatest that there is. -/
lemma raiseRoot_ends (hp : p.Usual) (id : PageId) :
    Ends (raiseRoot id) p (fun _ _ => True)
      (fun e _ => e = .levelOverflow ∧ MetaPage.level p = .ok (MetaPage.levelLimit - 1)) := by
  have hsize := hp.1
  obtain ⟨n, hlevel, hlt⟩ := exists_level hp
  refine Ends.bind_ok (look_ok hlevel) ?_
  by_cases hfull : MetaPage.levelLimit ≤ n + 1
  · rw [if_pos hfull]
    exact Ends.of_error rfl ⟨rfl, by rw [hlevel, show n = MetaPage.levelLimit - 1 by omega]⟩
  · rw [if_neg hfull]
    obtain ⟨q, hrun, -⟩ := MetaPage.exists_enter (p := p) (by omega) id (Nat.not_le.mp hfull)
    exact Ends.of_ok hrun trivial

/-- A root is entered one level down. -/
lemma lowerRoot_ends (hp : p.Usual) (id : PageId) :
    Ends (lowerRoot id) p (fun _ _ => True) (fun _ _ => False) := by
  have hsize := hp.1
  obtain ⟨n, hlevel, hlt⟩ := exists_level hp
  refine Ends.bind_ok (look_ok hlevel) ?_
  obtain ⟨q, hrun, -⟩ := MetaPage.exists_enter (p := p) (n := n - 1) (by omega) id (by omega)
  exact Ends.of_ok hrun trivial

/-- The level in the meta page is that of any page with the same own id. -/
lemma level_of_keepsSelf (hp : p.Usual) (h : p.KeepsSelf q) : MetaPage.level q = MetaPage.level p := by
  have hsize := hp.1
  have hregion : q.region 8 4 = p.region 8 4 :=
    Page.region_region (d := 0) h.self (by omega)
  rw [MetaPage.level, MetaPage.level, Page.number_region (by rw [h.size]; omega),
    Page.number_region (by omega), hregion]

end Tree

end PageCatalog
