import Mathlib.Tactic
import PageCatalog.Proofs.Tree.Stored

/-!
The nodes of a tree as the program meets them.

What stands in a page is read the way the tree reads it, and the nodes of a tree are
the pages that links lead to from its root. If the session holds a shape, these are the
nodes of the shape.

* `NodeImage`, `Tree.nodeAt`: what stands in the page of a node.
* `Tree.Reaches`: a page that links lead to.
* `Tree.exists_part`: a page that is reached is that of a part of the shape.
* `Tree.exists_reaches`: every part of the shape is reached.
* `Shape.edges`, `Tree.edge_mem`: every page has a single link to it.
-/

namespace PageCatalog

/-- What a node holds: rows, or separators and links. -/
inductive NodeImage (ρ : Type) where
  | leaf (rows : List ρ)
  | inner (keys : List ρ) (links : List PageId)

namespace Tree

variable {ρ : Type} (t : Tree ρ)

/-- What the page reached as `id` holds, if it is a node of the tree. -/
def image (id : PageId) (p : Page) : Except Failure (NodeImage ρ) := do
  let count ← Node.count p
  match ← t.kind id p with
  | .leaf => return .leaf (← (List.range count).mapM fun i => t.rows.loadSlot t.rows.leaf i p)
  | .inner =>
    let keys ← (List.range count).mapM fun i => t.rows.loadSlot t.rows.inner i p
    return .inner keys (← (List.range (count + 1)).mapM fun i => Node.link t.rows.inner i p)

variable {δ : Type} [Device δ]

/-- What a session finds in the page of a node. -/
def nodeAt (s : Session δ) (id : PageId) : Except Failure (NodeImage ρ) :=
  (Session.view t.cache id (t.image id) s).1

/-- Links lead from a page to another one, so many one after the other. -/
inductive Reaches (s : Session δ) : ℕ → PageId → PageId → Prop
  | refl (id : PageId) : Reaches s 0 id id
  | link {n : ℕ} {id child to_ : PageId} {keys : List ρ} {links : List PageId}
      (hnode : t.nodeAt s id = .ok (.inner keys links)) (hchild : child ∈ links)
      (hrest : Reaches s n child to_) : Reaches s (n + 1) id to_

variable {κ : Type} [LinearOrder κ] {t} {key : ρ → κ} {s : Session δ} {h : ℕ} {id : PageId} {p : Page}
  {rows keys : List ρ} {children : List (Shape ρ h)} {links : List PageId}

lemma Reaches.eq_of_zero {to_ : PageId} (hreach : t.Reaches s 0 id to_) : to_ = id := by
  cases hreach
  rfl

/-! ### Nodes of a shape -/

omit [Device δ] in
/-- A leaf is read as its rows. -/
lemma image_leaf (hpage : t.rows.LeafPage id rows p) : t.image id p = .ok (.leaf rows) := by
  simp only [image, hpage.head.count, t.kind_leaf hpage, bind, Except.bind,
    range_mapM hpage.slots]
  rfl

/-- An inner node is read as its separators and links. -/
lemma image_inner (hR : t.rows.Lawful key) (hpage : t.rows.InnerPage id keys links p) :
    t.image id p = .ok (.inner keys links) := by
  have hlinks := range_mapM hpage.links
  rw [hpage.length_links] at hlinks
  simp only [image, hpage.head.count, t.kind_inner hR hpage, bind, Except.bind,
    range_mapM hpage.slots, hlinks]
  rfl

/-- A node in memory is read from its frame. -/
lemma nodeAt_memory (hp : s.InMemory t.cache id.index p) : t.nodeAt s id = t.image id p := by
  rw [nodeAt, Session.view_memory hp]

lemma nodeAt_leaf (hS : (Shape.leaf id rows).Stored (.none δ) t.rows t.cache s) :
    t.nodeAt s id = .ok (.leaf rows) := by
  obtain ⟨p, hp, -, hpage⟩ := hS
  rw [nodeAt_memory (Session.shows_none.mp hp), image_leaf hpage]

lemma nodeAt_inner (hR : t.rows.Lawful key)
    (hS : (Shape.inner id keys children).Stored (.none δ) t.rows t.cache s) :
    t.nodeAt s id = .ok (.inner keys (children.map Shape.id)) := by
  obtain ⟨⟨p, hp, -, hpage⟩, -⟩ := hS
  rw [nodeAt_memory (Session.shows_none.mp hp), image_inner hR hpage]

/-- Links lead from a leaf nowhere, and from an inner node into one of its children. -/
lemma Reaches.cases_leaf {n : ℕ} {to_ : PageId} (hreach : t.Reaches s n id to_)
    (hS : (Shape.leaf id rows).Stored (.none δ) t.rows t.cache s) : n = 0 ∧ to_ = id := by
  cases hreach with
  | refl => exact ⟨rfl, rfl⟩
  | link hnode =>
      rw [nodeAt_leaf hS] at hnode
      cases hnode

/-- From an inner node, links lead to itself or through one of its children. -/
lemma Reaches.cases_inner {n : ℕ} {to_ : PageId} (hreach : t.Reaches s n id to_)
    (hR : t.rows.Lawful key)
    (hS : (Shape.inner id keys children).Stored (.none δ) t.rows t.cache s) :
    n = 0 ∧ to_ = id ∨ ∃ m, ∃ c ∈ children, n = m + 1 ∧ t.Reaches s m c.id to_ := by
  cases hreach with
  | refl => exact .inl ⟨rfl, rfl⟩
  | link hnode hchild hrest =>
      rw [nodeAt_inner hR hS] at hnode
      cases hnode
      obtain ⟨c, hc, rfl⟩ := List.mem_map.mp hchild
      exact .inr ⟨_, c, hc, rfl, hrest⟩

/-- A page that is reached is that of a part of the shape. The part has whatever goes from
inner nodes to their children. -/
theorem exists_part (hR : t.rows.Lawful key) (P : {h : ℕ} → Shape ρ h → Prop)
    (hP : ∀ {h : ℕ} (id : PageId) (keys : List ρ) (children : List (Shape ρ h)),
      P (.inner id keys children) → ∀ c ∈ children, P c)
    (S : Shape ρ h) (hS : S.Stored (.none δ) t.rows t.cache s) (hPS : P S) {n : ℕ} {to_ : PageId}
    (hreach : t.Reaches s n S.id to_) :
    ∃ h', ∃ S' : Shape ρ h', h' + n = h ∧ S'.id = to_ ∧ S'.Stored (.none δ) t.rows t.cache s ∧ P S' := by
  induction h generalizing n with
  | zero =>
      obtain ⟨id, rows, rfl⟩ := S.exists_leaf
      obtain ⟨rfl, rfl⟩ := hreach.cases_leaf hS
      exact ⟨0, _, rfl, rfl, hS, hPS⟩
  | succ h ih =>
      obtain ⟨id, keys, children, rfl⟩ := S.exists_inner
      obtain ⟨rfl, rfl⟩ | ⟨m, c, hc, rfl, hrest⟩ := hreach.cases_inner hR hS
      · exact ⟨h + 1, _, rfl, rfl, hS, hPS⟩
      · obtain ⟨h', S', hh, hid, hS', hPS'⟩ := ih c (hS.2 c hc) (hP id keys children hPS c hc) hrest
        exact ⟨h', S', by omega, hid, hS', hPS'⟩

/-- Every node of a shape is reached. -/
theorem exists_reaches (hR : t.rows.Lawful key) (S : Shape ρ h)
    (hS : S.Stored (.none δ) t.rows t.cache s) {i : ℕ} (hi : i ∈ S.indexes) :
    ∃ n to_, t.Reaches s n S.id to_ ∧ to_.index = i := by
  induction h with
  | zero =>
      obtain ⟨id, rows, rfl⟩ := S.exists_leaf
      exact ⟨0, id, .refl id, (List.mem_singleton.mp hi).symm⟩
  | succ h ih =>
      obtain ⟨id, keys, children, rfl⟩ := S.exists_inner
      rcases List.mem_cons.mp hi with rfl | hi
      · exact ⟨0, id, .refl id, rfl⟩
      · obtain ⟨c, hc, hi⟩ := List.mem_flatMap.mp hi
        obtain ⟨n, to_, hreach, hto⟩ := ih c (hS.2 c hc) hi
        exact ⟨n + 1, to_, .link (nodeAt_inner hR hS) (List.mem_map_of_mem hc) hreach, hto⟩

end Tree

namespace Shape

variable {ρ : Type} {h : ℕ}

/-- The pages of all nodes. -/
def ids : {h : ℕ} → Shape ρ h → List PageId
  | 0, leaf id _ => [id]
  | _ + 1, inner id _ children => id :: children.flatMap ids

/-- The ids of a shape have the indexes of its pages. -/
lemma ids_map_index (S : Shape ρ h) : S.ids.map PageId.index = S.indexes := by
  induction h with
  | zero => rfl
  | succ h ih =>
      obtain ⟨id, keys, children, rfl⟩ := S.exists_inner
      change id.index :: (children.flatMap ids).map PageId.index = id.index :: children.flatMap indexes
      rw [List.map_flatMap]
      exact congrArg (id.index :: ·) (List.flatMap_congr fun c _ => ih c)

lemma id_mem_ids (S : Shape ρ h) : S.id ∈ S.ids := by
  cases h with
  | zero => exact List.mem_singleton.mpr rfl
  | succ h => exact List.mem_cons_self

end Shape

/-- The nodes of a stored shape are the pages that links lead to. -/
theorem Tree.mem_ids_iff {ρ δ κ : Type} [Device δ] [LinearOrder κ] {t : Tree ρ} {key : ρ → κ}
    {s : Session δ} {h : ℕ} (hR : t.rows.Lawful key) (S : Shape ρ h)
    (hS : S.Stored (.none δ) t.rows t.cache s) {to_ : PageId} :
    to_ ∈ S.ids ↔ ∃ n, t.Reaches s n S.id to_ := by
  constructor
  · intro hto
    induction h with
    | zero => exact ⟨0, List.mem_singleton.mp hto ▸ .refl _⟩
    | succ h ih =>
        obtain ⟨id, keys, children, rfl⟩ := S.exists_inner
        obtain rfl | hto := List.mem_cons.mp hto
        · exact ⟨0, .refl _⟩
        · obtain ⟨c, hc, hto⟩ := List.mem_flatMap.mp hto
          obtain ⟨n, hreach⟩ := ih c (hS.2 c hc) hto
          exact ⟨n + 1, .link (nodeAt_inner hR hS) (List.mem_map_of_mem hc) hreach⟩
  · rintro ⟨n, hreach⟩
    obtain ⟨_, S', -, rfl, -, hsub⟩ := exists_part hR (fun S' => ∀ id ∈ S'.ids, id ∈ S.ids)
      (fun id keys children hsub c hc id' hid' =>
        hsub id' (List.mem_cons_of_mem _ (List.mem_flatMap.mpr ⟨c, hc, hid'⟩))) S hS
      (fun _ hid => hid) hreach
    exact hsub _ S'.id_mem_ids

/-! ### Links -/

namespace Shape

variable {ρ : Type} {h : ℕ}

/-- All links of a shape: the page that has the link, its place there, and the page that
it leads to. -/
def edges : {h : ℕ} → Shape ρ h → List (PageId × ℕ × PageId)
  | 0, leaf _ _ => []
  | _ + 1, inner id _ children =>
    children.zipIdx.flatMap fun (c, i) => (id, i, c.id) :: c.edges

/-- Every page but the topmost one has a single link to it. -/
lemma edges_map_index (S : Shape ρ h) :
    S.id.index :: S.edges.map (fun e => e.2.2.index) = S.indexes := by
  induction h with
  | zero => rfl
  | succ h ih =>
      obtain ⟨id, keys, children, rfl⟩ := S.exists_inner
      have hchildren : ∀ (cs : List (Shape ρ h)) (k : ℕ),
          ((cs.zipIdx k).flatMap fun (c, i) => (id, i, c.id) :: c.edges).map (fun e => e.2.2.index)
            = cs.flatMap indexes := by
        intro cs
        induction cs with
        | nil => exact fun k => rfl
        | cons c cs ihcs =>
            intro k
            rw [List.zipIdx_cons, List.flatMap_cons, List.map_append, ihcs, List.flatMap_cons,
              ← ih c]
            rfl
      exact congrArg (id.index :: ·) (hchildren children 0)

end Shape

namespace Tree

variable {ρ δ κ : Type} [Device δ] [LinearOrder κ] {t : Tree ρ} {key : ρ → κ} {s : Session δ} {h : ℕ}

/-- A link of a page that is reached is one of the shape. -/
lemma edge_mem (hR : t.rows.Lawful key) (S : Shape ρ h)
    (hS : S.Stored (.none δ) t.rows t.cache s) {n i : ℕ} {id child : PageId} {keys : List ρ}
    {links : List PageId} (hreach : t.Reaches s n S.id id)
    (hnode : t.nodeAt s id = .ok (.inner keys links)) (hchild : links[i]? = some child) :
    (id, i, child) ∈ S.edges := by
  induction h generalizing n with
  | zero =>
      obtain ⟨top, rows, rfl⟩ := S.exists_leaf
      obtain ⟨rfl, rfl⟩ := hreach.cases_leaf hS
      rw [nodeAt_leaf hS] at hnode
      cases hnode
  | succ h ih =>
      obtain ⟨top, keys', children, rfl⟩ := S.exists_inner
      have hedges : ∀ c ∈ children, ∀ e ∈ c.edges, e ∈ (Shape.inner top keys' children).edges := by
        intro c hc e he
        obtain ⟨j, hj⟩ := List.getElem?_of_mem hc
        exact List.mem_flatMap.mpr ⟨(c, j), List.mem_zipIdx_iff_getElem?.mpr hj,
          List.mem_cons_of_mem _ he⟩
      obtain ⟨rfl, rfl⟩ | ⟨m, c, hc, rfl, hrest⟩ := hreach.cases_inner hR hS
      · rw [nodeAt_inner hR hS] at hnode
        cases hnode
        rw [List.getElem?_map, Option.map_eq_some_iff] at hchild
        obtain ⟨c, hc, rfl⟩ := hchild
        exact List.mem_flatMap.mpr ⟨(c, i), List.mem_zipIdx_iff_getElem?.mpr hc,
          List.mem_cons_self⟩
      · exact hedges c hc _ (ih c (hS.2 c hc) hrest)

end Tree

end PageCatalog
