import PageCatalog.RowFormat
import PageCatalog.Store.Session

/-!
B+trees in the pages of a cache.

The root of the tree and its level stand in the meta page of the cache. An inner
node with keys `k₀ … kₙ₋₁` has links `c₀ … cₙ`; child `cᵢ` is for the rows `r`
with `kᵢ₋₁ ≤ r < kᵢ`. Rows stand in the leaves.

* `MetaPage`: the two fields of the meta page.
* `Tree`: a tree by name, cache and rows.
* `Tree.kind`: whether a page is a node of the tree, and which kind.
* `Tree.search`: the place of a row among the slots of a node.
* `Tree.arrive`: what a search for a row meets in a node.
* `Tree.start`: a tree made or taken over.
-/

namespace PageCatalog

/-! ### The meta page -/

namespace MetaPage

/-- The root of the tree; its word is zero until a tree is made. -/
def root (p : Page) : Except Failure PageId := p.pageId 0

/-- The level of the root, zero while it is a leaf. -/
def level (p : Page) : Except Failure Nat := p.number 8 4

def setRoot (id : PageId) : PageM Unit := .change fun p => p.setPageId 0 id

def setLevel (n : Nat) : PageM Unit := .change fun p => p.setNumber 8 4 n

/-- Levels are below this number. -/
def levelLimit : Nat := 0x100000000

end MetaPage

/-! ### Nodes of a tree -/

/-- A tree of rows in a cache. -/
structure Tree (ρ : Type) where
  name : String
  cache : CacheId
  rows : RowFormat ρ

/-- The two kinds of nodes. -/
inductive NodeKind where
  | leaf
  | inner
  deriving DecidableEq, Repr

/-- The place of a row among the slots of a node. -/
inductive Position where
  /-- The slot holds an equal row. -/
  | found (i : Nat)
  /-- No slot does; the row would go here. -/
  | gap (i : Nat)
  deriving DecidableEq, Repr

/-- What a search for a row meets in a node. -/
inductive Arrival where
  /-- A leaf, with the place of the row in it. -/
  | leaf (at_ : Position)
  /-- An inner node, with the child to follow and its position. -/
  | inner (i : Nat) (child : PageId)
  deriving DecidableEq, Repr

namespace Tree

variable {ρ : Type} (t : Tree ρ)

/-- The kind of the node in a page that was reached as `id`. Refused are pages of
another type, of an unknown version, of another id, and with too many keys. -/
def kind (id : PageId) (p : Page) : Except Failure NodeKind := do
  let tag ← Node.tag p
  let (kind, L) ←
    if tag = t.rows.leaf.tag then pure (NodeKind.leaf, t.rows.leaf)
    else if tag = t.rows.inner.tag then pure (NodeKind.inner, t.rows.inner)
    else throw (.error (.corrupted (.notANode id t.name (← Node.header p))))
  L.check p
  let self ← Node.self p
  if self ≠ id then throw (.error (.corrupted (.selfId id self)))
  let count ← Node.count p
  let most := L.capacity p.size
  if most < count then throw (.error (.corrupted (.keyCount id t.name count most)))
  return kind

/-- Looks for a row among the slots from `lo` to `hi` by halving, in at most `n`
steps. The slots below `lo` are smaller, those from `hi` on are greater. -/
def searchBetween (L : NodeLayout) (p : Page) (row : ρ) :
    (n lo hi : Nat) → Except Failure Position
  | 0, lo, _ => .ok (.gap lo)
  | n + 1, lo, hi =>
    if lo < hi then do
      let mid := lo + (hi - lo) / 2
      match ← t.rows.compareSlot L mid p row with
      | .lt => searchBetween L p row n (mid + 1) hi
      | .gt => searchBetween L p row n lo mid
      | .eq => return .found mid
    else .ok (.gap lo)

/-- The place of a row among the slots of a node. -/
def search (L : NodeLayout) (p : Page) (row : ρ) : Except Failure Position := do
  let count ← Node.count p
  t.searchBetween L p row count 0 count

/-- The child to follow from the place of a row: as many keys are at most the row. -/
def childAt : Position → Nat
  | .found i => i + 1
  | .gap i => i

/-- What a search for a row meets in the page reached as `id`. -/
def arrive (row : ρ) (id : PageId) (p : Page) : Except Failure Arrival := do
  match ← t.kind id p with
  | .leaf => return .leaf (← t.search t.rows.leaf p row)
  | .inner =>
    let i := childAt (← t.search t.rows.inner p row)
    return .inner i (← Node.link t.rows.inner i p)

/-! ### The tree in a session -/

variable {δ : Type} [Device δ]

/-- The root of the tree. -/
def root : SessionM δ PageId := Session.view t.cache .metaPage MetaPage.root

/-- The level of the root. -/
def level : SessionM δ Nat := Session.view t.cache .metaPage MetaPage.level

/-- A page for a new node. -/
def allocate : SessionM δ PageId := Session.allocate t.cache t.rows.partition t.rows.space

/-- The most pages that can follow each other on links without one coming twice,
and one more. -/
def reach : SessionM δ Nat := return (← Session.pageCount t.cache) + 1

/-- Makes a new tree of one empty leaf. -/
def create : SessionM δ Unit := do
  let root ← t.allocate
  Session.edit t.cache root (Node.init t.rows.leaf root)
  Session.edit t.cache .metaPage do
    MetaPage.setRoot root
    MetaPage.setLevel 0

/-- Makes sure that the meta page leads to a node of the tree. -/
def recover : SessionM δ Unit := do
  let root ← t.root
  if root.word = 0 then Session.refuse (.corrupted (.noRoot t.name))
  discard <| Session.view t.cache root (t.kind root)

/-- Makes a tree whose cache has none yet, and takes over the one that is there. What
a caller knows of that, as `fresh?`, goes before what the meta page says. -/
def start (fresh? : Option Bool) : SessionM δ Unit := do
  let root ← t.root
  if fresh?.getD (root.word = 0) then t.create else t.recover

end Tree

end PageCatalog
