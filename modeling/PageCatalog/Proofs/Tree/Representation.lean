import Mathlib.Tactic
import PageCatalog.Proofs.Tree.Nodes
import PageCatalog.Proofs.Tree.OrderedMap

/-!
The stored form of a tree.

From a new tree on, and as long as rows are put and removed without a failure, the pages
that links lead to from the root form a tree in order.

* `Tree.Represented`: all that is said of the pages.
* `Tree.Holds.linked_once`, `Holds.between`, `Holds.small`: links, separators and single leaves of a
  held tree; `Tree.Holds.represented`: all of it.
* `Tree.Updated`: rows put and removed; `Updated.holdsRows`.
* `Tree.represented_of_updated`: new trees and their updates.
-/

namespace PageCatalog

/-- A child of a fence keeps to the separators beside it. -/
lemma Fenced.of_getElem? {ρ κ α : Type} [LinearOrder κ] {key : ρ → κ}
    {P : WithBot κ → WithTop κ → α → Prop} {lo : WithBot κ} {hi : WithTop κ} {keys : List ρ}
    {children : List α} {c : α} {i : ℕ} (h : Fenced key P lo hi keys children)
    (hc : children[i]? = some c) :
    ∃ a b, P a b c ∧ lo ≤ a ∧ (∀ j k, i = j + 1 → keys[j]? = some k → (key k : WithBot κ) ≤ a) ∧
      (∀ k, keys[i]? = some k → b ≤ (key k : WithTop κ)) := by
  -- By induction on the separators, counting down to the child: it begins at the last one that
  -- was passed, and ends at the next one.
  induction keys generalizing lo children i with
  | nil =>
      obtain ⟨c', -, rfl⟩ | ⟨_, _, _, _, hks, -⟩ := h.cases
      · cases i with
        | zero =>
            obtain rfl : c' = c := by simpa using hc
            exact ⟨lo, hi, h, le_rfl, by simp, by simp⟩
        | succ i => simp at hc
      · cases hks
  | cons k ks ih =>
      obtain ⟨_, hks, -⟩ | ⟨_, _, c', cs, hks, rfl⟩ := h.cases
      · cases hks
      cases hks
      obtain ⟨hk, -, hc', hcs⟩ := h
      cases i with
      | zero =>
          obtain rfl : c' = c := by simpa using hc
          refine ⟨lo, key k, hc', le_rfl, by simp, fun q hq => ?_⟩
          obtain rfl : k = q := by simpa using hq
          exact le_rfl
      | succ i =>
          obtain ⟨a, b, hab, hlo, hbefore, hafter⟩ := ih hcs (i := i) (by simpa using hc)
          refine ⟨a, b, hab, hk.le.trans hlo, fun j q hj hq => ?_,
            fun q hq => hafter q (by simpa using hq)⟩
          obtain rfl : i = j := by omega
          cases i with
          | zero =>
              obtain rfl : k = q := by simpa using hq
              exact hlo
          | succ i => exact hbefore i q rfl (by simpa using hq)

namespace Tree

section Represented

variable {ρ κ δ : Type} [LinearOrder κ] [Device δ]

/-- The page `a`, which is reached from the root, has a link to `x` at place `i`. -/
def Linked (t : Tree ρ) (s : Session δ) (root a : PageId) (i : ℕ) (x : PageId) : Prop :=
  ∃ n keys links, t.Reaches s n root a ∧ t.nodeAt s a = .ok (.inner keys links) ∧ links[i]? = some x

/-- A row stands in one of the leaves that are reached from the root. -/
def Stands (t : Tree ρ) (s : Session δ) (root : PageId) (row : ρ) : Prop :=
  ∃ n leaf rows, t.Reaches s n root leaf ∧ t.nodeAt s leaf = .ok (.leaf rows) ∧ row ∈ rows

/-- The pages of a session form a tree in order, below a given root at a given level. -/
structure Represented (t : Tree ρ) (key : ρ → κ) (s : Session δ) (root : PageId) (level : ℕ) :
    Prop where
  /-- The meta page names the root and its level. -/
  root_eq : (t.root s).1 = .ok root
  level_eq : (t.level s).1 = .ok level
  root_ne : root.word ≠ 0
  /-- A page that is reached is in use, and its header is that of a node. -/
  header : ∀ {n id}, t.Reaches s n root id → id.index ≠ 0 ∧
    ∃ p L count, s.InMemory t.cache id.index p ∧ (L = t.rows.leaf ∨ L = t.rows.inner) ∧
      p.size = s.size ∧ Node.Head L id count p ∧ count ≤ L.capacity s.size
  /-- And it can be read as a node. -/
  readable : ∀ {n id}, t.Reaches s n root id → ∃ image, t.nodeAt s id = .ok image
  /-- Every page has one link to it at most, and the root has none. -/
  linked_once : ∀ {a b x y i j}, t.Linked s root a i x → t.Linked s root b j y →
    x.index = y.index → a = b ∧ i = j ∧ x = y
  root_unlinked : ∀ {a i x}, t.Linked s root a i x → x.index ≠ root.index
  /-- All leaves are as deep as the level says. -/
  leaf_level : ∀ {n id rows}, t.Reaches s n root id → t.nodeAt s id = .ok (.leaf rows) → n = level
  leaf_ascending : ∀ {n id rows}, t.Reaches s n root id → t.nodeAt s id = .ok (.leaf rows) →
    Rows.Ascending key rows
  inner_ascending : ∀ {n id keys links}, t.Reaches s n root id →
    t.nodeAt s id = .ok (.inner keys links) →
    Rows.Ascending key keys ∧ links.length = keys.length + 1
  /-- The rows below a child keep between the separators beside it. -/
  between : ∀ {n id keys links i child m leaf rows}, t.Reaches s n root id →
    t.nodeAt s id = .ok (.inner keys links) → links[i]? = some child →
    t.Reaches s m child leaf → t.nodeAt s leaf = .ok (.leaf rows) → ∀ row ∈ rows,
      (∀ j k, i = j + 1 → keys[j]? = some k → key k ≤ key row) ∧
        (∀ k, keys[i]? = some k → key row < key k)
  leaf_filled : ∀ {n id rows}, t.Reaches s n root id → t.nodeAt s id = .ok (.leaf rows) →
    id ≠ root → rows ≠ []
  root_keyed : ∀ {keys links}, t.nodeAt s root = .ok (.inner keys links) → keys ≠ []
  /-- A tree with one row at most is a single leaf. -/
  small : (∀ {a b}, t.Stands s root a → t.Stands s root b → a = b) →
    level = 0 ∧ ∃ rows, t.nodeAt s root = .ok (.leaf rows)

variable {t : Tree ρ} {key : ρ → κ} {s : Session δ} {h : ℕ} {T : TreeShape ρ}

/-- A list of two elements and more. -/
lemma exists_cons_cons {α : Type} {l : List α} (h : 2 ≤ l.length) :
    ∃ a b rest, l = a :: b :: rest := by
  obtain ⟨a, l, rfl⟩ := List.exists_cons_of_length_pos (show 0 < l.length by omega)
  rw [List.length_cons] at h
  obtain ⟨b, rest, rfl⟩ := List.exists_cons_of_length_pos (show 0 < l.length by omega)
  exact ⟨a, b, rest, rfl⟩

/-- A tree that is not a single leaf has two rows or more. -/
lemma two_le_length (hT : T.Proper key) (hheight : T.height ≠ 0) : 2 ≤ T.rows.length := by
  obtain ⟨height, top⟩ := T
  cases height with
  | zero => exact absurd rfl hheight
  | succ height =>
      obtain ⟨id, keys, children, rfl⟩ := top.exists_inner
      have hordered : Fenced key (Shape.Ordered key) ⊥ ⊤ keys children := hT.ordered
      have hfilled : ∀ c ∈ children, c.Filled := hT.filled (Nat.succ_ne_zero height)
      have hpos : ∀ c ∈ children, 0 < c.rows.length := by
        intro c hc
        obtain ⟨a, b, hab, -⟩ := hordered.of_mem hc
        exact List.length_pos_iff.mpr ((hfilled c hc).rows_ne_nil hab)
      obtain ⟨k, ks, rfl⟩ := List.exists_cons_of_ne_nil (show keys ≠ [] from hT.rooted)
      have hlen := hordered.length
      rw [List.length_cons] at hlen
      obtain ⟨c, d, rest, rfl⟩ := exists_cons_cons (show 2 ≤ children.length by omega)
      have hc := hpos c (by simp)
      have hd := hpos d (by simp)
      change 2 ≤ ((c :: d :: rest).flatMap Shape.rows).length
      simp only [List.flatMap_cons, List.length_append]
      omega

/-- What a part of a held tree has of the whole. -/
structure PartOf (key : ρ → κ) (T : TreeShape ρ) (S : Shape ρ h) : Prop where
  ordered : ∃ lo hi, S.Ordered key lo hi
  indexes : ∀ i ∈ S.indexes, i ∈ T.indexes
  filled : T.height ≠ 0 → S.Filled

/-- A child of a part is a part. -/
lemma PartOf.child {id : PageId} {keys : List ρ} {children : List (Shape ρ h)}
    (hS : PartOf key T (.inner id keys children)) {c : Shape ρ h} (hc : c ∈ children) :
    PartOf key T c := by
  obtain ⟨lo, hi, hordered⟩ := hS.ordered
  obtain ⟨a, b, hab, -⟩ := Fenced.of_mem hordered hc
  refine ⟨⟨a, b, hab⟩, fun i hin => hS.indexes i ?_, fun hheight => hS.filled hheight c hc⟩
  exact List.mem_cons_of_mem _ (List.mem_flatMap.mpr ⟨c, hc, hin⟩)

/-- A page that is reached from the root is that of a part of the tree. -/
lemma Holds.part (hR : t.rows.Lawful key) (hT : t.Holds (.none δ) s T) (hproper : T.Proper key)
    {n : ℕ} {id : PageId} (hreach : t.Reaches s n T.top.id id) :
    ∃ h', ∃ S : Shape ρ h', h' + n = T.height ∧ S.id = id ∧ S.Stored (.none δ) t.rows t.cache s ∧
      PartOf key T S :=
  exists_part hR (fun S => PartOf key T S) (fun _ _ _ hS _ hc => hS.child hc) T.top hT.stored
    ⟨⟨⊥, ⊤, hproper.ordered⟩, fun _ hi => hi, hproper.filled⟩ hreach

/-- A part of a tree that is read as a leaf is a leaf. -/
lemma exists_leaf_of_nodeAt (hR : t.rows.Lawful key) {S : Shape ρ h}
    (hS : S.Stored (.none δ) t.rows t.cache s) {rows : List ρ}
    (hnode : t.nodeAt s S.id = .ok (.leaf rows)) : h = 0 ∧ S.rows = rows := by
  cases h with
  | zero =>
      obtain ⟨id, rows', rfl⟩ := S.exists_leaf
      rw [Shape.id_leaf, nodeAt_leaf hS] at hnode
      cases hnode
      exact ⟨rfl, rfl⟩
  | succ h =>
      obtain ⟨id, keys, children, rfl⟩ := S.exists_inner
      rw [Shape.id_inner, nodeAt_inner hR hS] at hnode
      cases hnode

/-- A part of a tree that is read as an inner node has children behind its links. -/
lemma exists_inner_of_nodeAt (hR : t.rows.Lawful key) {S : Shape ρ h}
    (hS : S.Stored (.none δ) t.rows t.cache s) (hpart : PartOf key T S) {keys : List ρ}
    {links : List PageId} (hnode : t.nodeAt s S.id = .ok (.inner keys links)) :
    ∃ h', ∃ children : List (Shape ρ h'), h = h' + 1 ∧ links = children.map Shape.id ∧
      (∃ lo hi, Fenced key (Shape.Ordered key) lo hi keys children) ∧
      ∀ c ∈ children, c.Stored (.none δ) t.rows t.cache s ∧ PartOf key T c := by
  cases h with
  | zero =>
      obtain ⟨id, rows, rfl⟩ := S.exists_leaf
      rw [Shape.id_leaf, nodeAt_leaf hS] at hnode
      cases hnode
  | succ h =>
      obtain ⟨id, keys', children, rfl⟩ := S.exists_inner
      rw [Shape.id_inner, nodeAt_inner hR hS] at hnode
      cases hnode
      exact ⟨h, children, rfl, rfl, hpart.ordered, fun c hc => ⟨hS.2 c hc, hpart.child hc⟩⟩

/-- The page of a stored shape has the header of a node. -/
lemma exists_header {S : Shape ρ h} (hS : S.Stored (.none δ) t.rows t.cache s) :
    ∃ p L count, s.InMemory t.cache S.id.index p ∧ (L = t.rows.leaf ∨ L = t.rows.inner) ∧
      p.size = s.size ∧ Node.Head L S.id count p ∧ count ≤ L.capacity s.size := by
  cases h with
  | zero =>
      obtain ⟨id, rows, rfl⟩ := S.exists_leaf
      obtain ⟨p, hp, hsize, hpage⟩ := hS
      exact ⟨p, _, _, Session.shows_none.mp hp, .inl rfl, hsize, hpage.head, hsize ▸ hpage.room⟩
  | succ h =>
      obtain ⟨id, keys, children, rfl⟩ := S.exists_inner
      obtain ⟨⟨p, hp, hsize, hpage⟩, -⟩ := hS
      exact ⟨p, _, _, Session.shows_none.mp hp, .inr rfl, hsize, hpage.head, hsize ▸ hpage.room⟩

/-- And it can be read. -/
lemma exists_image (hR : t.rows.Lawful key) {S : Shape ρ h}
    (hS : S.Stored (.none δ) t.rows t.cache s) : ∃ image, t.nodeAt s S.id = .ok image := by
  cases h with
  | zero =>
      obtain ⟨id, rows, rfl⟩ := S.exists_leaf
      exact ⟨_, nodeAt_leaf hS⟩
  | succ h =>
      obtain ⟨id, keys, children, rfl⟩ := S.exists_inner
      exact ⟨_, nodeAt_inner hR hS⟩

/-- No two links of the shape lead to one page, and none leads to the root. -/
lemma Holds.nodup_edges (hT : t.Holds (.none δ) s T) :
    (T.top.id.index :: T.top.edges.map fun e => e.2.2.index).Nodup := by
  rw [Shape.edges_map_index]
  exact hT.distinct

/-- Links of the pages that are reached are links of the shape, each to a page of its own. -/
lemma Holds.linked_once (hR : t.rows.Lawful key) (hT : t.Holds (.none δ) s T) {a b x y : PageId}
    {i j : ℕ} (ha : t.Linked s T.top.id a i x) (hb : t.Linked s T.top.id b j y)
    (hxy : x.index = y.index) : a = b ∧ i = j ∧ x = y := by
  obtain ⟨_, _, _, hreach, hnode, hchild⟩ := ha
  obtain ⟨_, _, _, hreach', hnode', hchild'⟩ := hb
  have hmem := edge_mem hR T.top hT.stored hreach hnode hchild
  have hmem' := edge_mem hR T.top hT.stored hreach' hnode' hchild'
  have heq := List.inj_on_of_nodup_map (List.nodup_cons.mp hT.nodup_edges).2 hmem hmem' hxy
  simpa using heq

/-- Nothing leads to the root. -/
lemma Holds.root_unlinked (hR : t.rows.Lawful key) (hT : t.Holds (.none δ) s T) {a x : PageId}
    {i : ℕ} (ha : t.Linked s T.top.id a i x) : x.index ≠ T.top.id.index := by
  obtain ⟨_, _, _, hreach, hnode, hchild⟩ := ha
  have hmem := edge_mem hR T.top hT.stored hreach hnode hchild
  intro heq
  exact (List.nodup_cons.mp hT.nodup_edges).1
    (heq ▸ List.mem_map_of_mem (f := fun e => e.2.2.index) hmem)

/-- The rows of a leaf below a child are rows of the child. -/
lemma rows_of_reaches (hR : t.rows.Lawful key) {c : Shape ρ h}
    (hc : c.Stored (.none δ) t.rows t.cache s) {m : ℕ} {leaf : PageId} {rows : List ρ}
    (hreach : t.Reaches s m c.id leaf) (hnode : t.nodeAt s leaf = .ok (.leaf rows)) :
    ∀ row ∈ rows, row ∈ c.rows := by
  obtain ⟨h', S, -, rfl, hS, hsub⟩ := exists_part hR (fun S => ∀ row ∈ S.rows, row ∈ c.rows)
    (fun id keys children hS d hd row hrow => hS row (List.mem_flatMap.mpr ⟨d, hd, hrow⟩))
    c hc (fun _ h => h) hreach
  obtain ⟨-, rfl⟩ := exists_leaf_of_nodeAt hR hS hnode
  exact hsub

/-- Every row of a stored shape stands in a leaf that is reached. -/
lemma stands_of_mem (hR : t.rows.Lawful key) (S : Shape ρ h)
    (hS : S.Stored (.none δ) t.rows t.cache s) {row : ρ} (hrow : row ∈ S.rows) :
    t.Stands s S.id row := by
  induction h with
  | zero =>
      obtain ⟨id, rows, rfl⟩ := S.exists_leaf
      exact ⟨0, id, rows, .refl id, nodeAt_leaf hS, hrow⟩
  | succ h ih =>
      obtain ⟨id, keys, children, rfl⟩ := S.exists_inner
      obtain ⟨c, hc, hrow⟩ := List.mem_flatMap.mp hrow
      obtain ⟨n, leaf, rows, hreach, hnode, hmem⟩ := ih c (hS.2 c hc) hrow
      exact ⟨n + 1, leaf, rows, .link (nodeAt_inner hR hS) (List.mem_map_of_mem hc) hreach, hnode, hmem⟩

/-- The rows below a child keep between the separators beside it. -/
lemma Holds.between (hR : t.rows.Lawful key) (hT : t.Holds (.none δ) s T) (hproper : T.Proper key)
    {n m i : ℕ} {id child leaf : PageId} {keys rows : List ρ} {links : List PageId}
    (hreach : t.Reaches s n T.top.id id) (hnode : t.nodeAt s id = .ok (.inner keys links))
    (hchild : links[i]? = some child) (hbelow : t.Reaches s m child leaf)
    (hleaf : t.nodeAt s leaf = .ok (.leaf rows)) :
    ∀ row ∈ rows, (∀ j k, i = j + 1 → keys[j]? = some k → key k ≤ key row) ∧
      (∀ k, keys[i]? = some k → key row < key k) := by
  intro row hrow
  obtain ⟨h', S, -, rfl, hS, hpart⟩ := hT.part hR hproper hreach
  obtain ⟨h'', children, -, rfl, ⟨lo, hi, hfenced⟩, hchildren⟩ :=
    exists_inner_of_nodeAt hR hS hpart hnode
  rw [List.getElem?_map, Option.map_eq_some_iff] at hchild
  obtain ⟨c, hc, rfl⟩ := hchild
  have hstored := (hchildren c (List.mem_of_getElem? hc)).1
  -- the child has a fence of its own, and the separators beside it are no further in
  obtain ⟨a, b, hab, -, hbefore, hafter⟩ := hfenced.of_getElem? hc
  obtain ⟨hlo, hhi⟩ := hab.bounded.2 row (rows_of_reaches hR hstored hbelow hleaf row hrow)
  refine ⟨fun j k hj hk => ?_, fun k hk => ?_⟩
  · exact WithBot.coe_le_coe.mp ((hbefore j k hj hk).trans hlo)
  · exact WithTop.coe_lt_coe.mp (hhi.trans_le (hafter k hk))

/-- A tree in which there is one row at most is a single leaf, since two children would hold two
rows with different keys. -/
lemma Holds.small (hR : t.rows.Lawful key) (hT : t.Holds (.none δ) s T) (hproper : T.Proper key)
    (hsame : ∀ {a b}, t.Stands s T.top.id a → t.Stands s T.top.id b → a = b) :
    T.height = 0 ∧ ∃ rows, t.nodeAt s T.top.id = .ok (.leaf rows) := by
  have hheight : T.height = 0 := by
    by_contra hne
    obtain ⟨a, b, rest, hrows⟩ := exists_cons_cons (two_le_length hproper hne)
    have hasc := hproper.ordered.ascending
    rw [hrows] at hasc
    have hlt := (List.pairwise_cons.mp hasc).1 b List.mem_cons_self
    have hstands : ∀ row ∈ T.rows, t.Stands s T.top.id row := fun row hrow =>
      stands_of_mem hR T.top hT.stored hrow
    obtain rfl := hsame (hstands a (by rw [hrows]; simp)) (hstands b (by rw [hrows]; simp))
    exact lt_irrefl _ hlt
  obtain ⟨height, top⟩ := T
  obtain rfl : height = 0 := hheight
  obtain ⟨id, rows, rfl⟩ := top.exists_leaf
  exact ⟨rfl, rows, nodeAt_leaf hT.stored⟩

/-- The pages of a held tree form a tree in order. -/
theorem Holds.represented (hR : t.rows.Lawful key) (hT : t.Holds (.none δ) s T)
    (hproper : T.Proper key) : t.Represented key s T.top.id T.height := by
  obtain ⟨m, hm, hleads⟩ := hT.root
  have hmeta : s.InMemory t.cache (PageId.metaPage).index m := Session.shows_none.mp hm
  have hroot : T.top.id.index ≠ 0 := fun heq => hT.meta_notMem (heq ▸ T.top.index_mem_indexes)
  -- Every page that links lead to is one of the shape, so what a page has to be is what the shape
  -- is at that place.
  constructor
  case root_eq =>
    rw [Tree.root, Session.view_memory hmeta, hleads.root]
  case level_eq =>
    rw [Tree.level, Session.view_memory hmeta, hleads.level]
  case root_ne =>
    intro hzero
    rw [PageId.index, PageId.toNat, hzero] at hroot
    exact hroot rfl
  case header =>
    intro n id hreach
    obtain ⟨h', S, -, rfl, hS, hpart⟩ := hT.part hR hproper hreach
    exact ⟨fun heq => hT.meta_notMem (heq ▸ hpart.indexes _ S.index_mem_indexes), exists_header hS⟩
  case readable =>
    intro n id hreach
    obtain ⟨h', S, -, rfl, hS, -⟩ := hT.part hR hproper hreach
    exact exists_image hR hS
  case linked_once => exact fun ha hb hxy => hT.linked_once hR ha hb hxy
  case root_unlinked => exact fun ha => hT.root_unlinked hR ha
  case leaf_level =>
    intro n id rows hreach hnode
    obtain ⟨h', S, hh, rfl, hS, -⟩ := hT.part hR hproper hreach
    obtain ⟨rfl, -⟩ := exists_leaf_of_nodeAt hR hS hnode
    omega
  case leaf_ascending =>
    intro n id rows hreach hnode
    obtain ⟨h', S, -, rfl, hS, hpart⟩ := hT.part hR hproper hreach
    obtain ⟨-, rfl⟩ := exists_leaf_of_nodeAt hR hS hnode
    obtain ⟨lo, hi, hordered⟩ := hpart.ordered
    exact hordered.bounded.1
  case inner_ascending =>
    intro n id keys links hreach hnode
    obtain ⟨h', S, -, rfl, hS, hpart⟩ := hT.part hR hproper hreach
    obtain ⟨h'', children, -, rfl, ⟨lo, hi, hfenced⟩, -⟩ := exists_inner_of_nodeAt hR hS hpart hnode
    exact ⟨hfenced.separators.1, by rw [List.length_map, hfenced.length]⟩
  case between =>
    intro n id keys links i child m leaf rows hreach hnode hchild hbelow hleaf row hrow
    exact hT.between hR hproper hreach hnode hchild hbelow hleaf row hrow
  case leaf_filled =>
    intro n id rows hreach hnode hne
    obtain ⟨h', S, hh, rfl, hS, hpart⟩ := hT.part hR hproper hreach
    obtain ⟨rfl, rfl⟩ := exists_leaf_of_nodeAt hR hS hnode
    have hheight : T.height ≠ 0 := by
      intro hzero
      obtain rfl : n = 0 := by omega
      exact hne hreach.eq_of_zero
    exact hpart.filled hheight
  case root_keyed =>
    intro keys links hnode hnil
    subst hnil
    obtain ⟨height, top⟩ := T
    cases height with
    | zero =>
        obtain ⟨id, rows, rfl⟩ := top.exists_leaf
        rw [Shape.id_leaf, nodeAt_leaf hT.stored] at hnode
        cases hnode
    | succ height =>
        obtain ⟨id, keys, children, rfl⟩ := top.exists_inner
        rw [Shape.id_inner, nodeAt_inner hR hT.stored] at hnode
        cases hnode
        exact hproper.rooted rfl
  case small => exact fun hsame => hT.small hR hproper hsame

end Represented

/-! ### Updates -/

section Updated

variable {ρ κ δ : Type} [Device δ]

/-- Rows were put and removed one after the other, and no call failed. -/
inductive Updated (t : Tree ρ) (s : Session δ) : Session δ → Prop
  | refl : Updated t s s
  | put {s' s'' : Session δ} {row : ρ} {old : Option ρ} (hbefore : Updated t s s')
      (hput : t.put row s' = (.ok old, s'')) : Updated t s s''
  | remove {s' s'' : Session δ} {row : ρ} {old : Option ρ} (hbefore : Updated t s s')
      (hremove : t.remove row s' = (.ok old, s'')) : Updated t s s''

variable [LinearOrder κ] {t : Tree ρ} {key : ρ → κ} {s s' : Session δ} {T : TreeShape ρ}

/-- Updates leave a tree in order. -/
lemma Updated.holdsRows (hR : t.rows.Supported key) (h : t.Updated s s')
    (hs : ∃ rows, t.HoldsRows key s rows) : ∃ rows, t.HoldsRows key s' rows := by
  induction h with
  | refl => exact hs
  | put _ hput ih =>
      obtain ⟨rows, hrows⟩ := ih
      exact ⟨_, ((hrows.put_ends hR _).ok hput).2.2⟩
  | remove _ hremove ih =>
      obtain ⟨rows, hrows⟩ := ih
      exact ⟨_, ((hrows.remove_ends hR _).ok hremove).2⟩

/-- From a new tree on, whatever is put and removed without a failure, the pages form a
tree in order. -/
theorem represented_of_updated (hR : t.rows.Supported key) {folder : String} {options : Options}
    {d d' : δ} {store : PageStore} (hstore : Session.start folder options d = (.ok store, d'))
    (hstart : t.start (some true) ⟨d', store⟩ = (.ok (), s)) (hupdated : t.Updated s s') :
    ∃ root level, t.Represented key s' root level := by
  obtain ⟨rows, T, hT, hproper, -⟩ :=
    hupdated.holdsRows hR ⟨[], holdsRows_of_start hR hstore hstart⟩
  exact ⟨_, _, hT.represented hR.lawful hproper⟩

/-- Puts rows one after the other. -/
def putAll (t : Tree ρ) (rows : List ρ) : SessionM δ Unit := rows.forM fun row => (fun _ => ()) <$> t.put row

/-- A tree is still one that came about by puts and removals after more of them. -/
lemma Updated.putAll {s'' : Session δ} {rows : List ρ} (h : t.Updated s s')
    (hputs : t.putAll rows s' = (.ok (), s'')) : t.Updated s s'' := by
  induction rows generalizing s' with
  | nil =>
      obtain rfl : s' = s'' := congrArg Prod.snd hputs
      exact h
  | cons row rest ih =>
      rcases hput : t.put row s' with ⟨e | old, s₁⟩
      · cases (run_bind_error (run_map_error hput _) _).symm.trans hputs
      · exact ih (h.put hput) ((run_bind_ok (run_map_ok hput _) _).symm.trans hputs)

/-- Three numbers are put into nodes of two rows, so that a leaf is split, and one of them is removed
again. The pages below the new root are in order. -/
theorem represented_after_split_and_removal :
    ∃ s s' : Session MemoryDisk, numbers.start (some true) .blank = (.ok (), s) ∧
      numbers.Updated s s' ∧ (numbers.find? 5 s').1 = .ok none ∧
      ∃ root, numbers.Represented RowFormat.keyOrder s' root 1 := by
  -- the sessions are hidden, so that nothing evaluates them again
  obtain ⟨s, s₁, s₂, hstart, hputs, ⟨_, hremove⟩, hlevel, hfind⟩ :
      ∃ s s₁ s₂ : Session MemoryDisk, numbers.start (some true) .blank = (.ok (), s) ∧
        numbers.putAll [7, 3, 5] s = (.ok (), s₁) ∧ (∃ old, numbers.remove 5 s₁ = (.ok old, s₂)) ∧
        (numbers.level s₂).1 = .ok 1 ∧ (numbers.find? 5 s₂).1 = .ok none := by
    have hruns :
        let s : Session MemoryDisk := (numbers.start (some true) .blank).2
        let s₁ := (numbers.putAll [7, 3, 5] s).2
        let s₂ := (numbers.remove 5 s₁).2
        (numbers.start (some true) (.blank : Session MemoryDisk)).1.isOk = true ∧
          (numbers.putAll [7, 3, 5] s).1.isOk = true ∧ (numbers.remove 5 s₁).1.isOk = true ∧
          (numbers.level s₂).1 = .ok 1 ∧ (numbers.find? 5 s₂).1 = .ok none := by
      decide +kernel
    obtain ⟨hstart, hputs, hremove, hlevel, hfind⟩ := hruns
    obtain ⟨⟨⟩, hstart⟩ := run_of_isOk hstart
    obtain ⟨⟨⟩, hputs⟩ := run_of_isOk hputs
    exact ⟨_, _, _, hstart, hputs, run_of_isOk hremove, hlevel, hfind⟩
  have hupdated := (Updated.refl.putAll hputs).remove hremove
  obtain ⟨root, level, hrepresented⟩ :=
    represented_of_updated numbers_supported Session.blank_start hstart hupdated
  obtain rfl : level = 1 := Except.ok.inj (hrepresented.level_eq.symm.trans hlevel)
  exact ⟨s, s₂, hstart, hupdated, hfind, root, hrepresented⟩

end Updated

end Tree

end PageCatalog
