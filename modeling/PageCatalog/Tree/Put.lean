import PageCatalog.Tree.Basic

/-!
Putting a row into a tree.

A row goes into the leaf that the links lead to, in place of an equal row or
between its neighbours. A full node is cut in half: a full leaf passes a copy of
the first row of its right half to its parent, a full inner node passes up its
middle key. When the root is cut, a new root is put above it.

* `Tree.putInLeaf`, `Tree.splitLeaf`: leaves.
* `Tree.putSeparator`, `Tree.splitInner`: inner nodes.
* `Tree.put`: the whole.
-/

namespace PageCatalog

/-- What putting a row into a part of a tree did: the row it replaced, and, if the
node was cut, the separator and the new node on its right. -/
structure PutResult (ρ : Type) where
  old : Option ρ
  split : Option (ρ × PageId)

namespace Tree

variable {ρ : Type} (t : Tree ρ)

/-! ### Steps on one page -/

/-- Puts a row at place `i` of a leaf that is not full. -/
def insertRow (i : Nat) (row : ρ) : PageM Unit := do
  let count ← .look Node.count
  Node.openSlot t.rows.leaf i count
  t.rows.storeSlot t.rows.leaf i row
  Node.setCount (count + 1)

/-- Replaces the row in slot `i` of a leaf; the result is the old row. -/
def replaceRow (i : Nat) (row : ρ) : PageM ρ := do
  let old ← .look (t.rows.loadSlot t.rows.leaf i)
  t.rows.storeSlot t.rows.leaf i row
  return old

/-- Puts a separator behind child `i` of an inner node that is not full, and behind
the separator the link to the new node. -/
def insertSeparator (i : Nat) (sep : ρ) (right : PageId) : PageM Unit := do
  let count ← .look Node.count
  Node.openSlot t.rows.inner i count
  t.rows.storeSlot t.rows.inner i sep
  Node.insertLink t.rows.inner (i + 1) (count + 1) right
  Node.setCount (count + 1)

/-- Copies `n` slots of a page, from slot `j` on, to the slots from `i` on. -/
def copySlots (L : NodeLayout) (src : Page) : (n i j : Nat) → PageM Unit
  | 0, _, _ => pure ()
  | n + 1, i, j => do
    t.rows.copySlot L i L src j
    copySlots L src n (i + 1) (j + 1)

/-- Copies `n` links of a page, from position `j` on, to the positions from `i` on. -/
def copyLinks (src : Page) : (n i j : Nat) → PageM Unit
  | 0, _, _ => pure ()
  | n + 1, i, j => do
    let link ← .look fun _ => Node.link t.rows.inner j src
    Node.setLink t.rows.inner i link
    copyLinks src n (i + 1) (j + 1)

/-- Fills a new leaf with the rows of a full one from slot `mid` on. -/
def fillRightLeaf (right : PageId) (left : Page) (mid count : Nat) : PageM Unit := do
  Node.init t.rows.leaf right
  t.copySlots t.rows.leaf left (count - mid) 0 mid
  Node.setCount (count - mid)

/-- Fills a new inner node with what stands behind key `mid` of a full one. -/
def fillRightInner (right : PageId) (left : Page) (mid count : Nat) : PageM Unit := do
  Node.init t.rows.inner right
  t.copySlots t.rows.inner left (count - mid - 1) 0 (mid + 1)
  t.copyLinks left (count - mid) 0 (mid + 1)
  Node.setCount (count - mid - 1)

/-- A root with one key above the halves of the old one. -/
def fillRoot (id left : PageId) (sep : ρ) (right : PageId) : PageM Unit := do
  Node.init t.rows.inner id
  t.rows.storeSlot t.rows.inner 0 sep
  Node.setLink t.rows.inner 0 left
  Node.setLink t.rows.inner 1 right
  Node.setCount 1

/-- Enters a new root one level up into the meta page. -/
def raiseRoot (id : PageId) : PageM Unit := do
  let level ← .look MetaPage.level
  if MetaPage.levelLimit ≤ level + 1 then throw .levelOverflow
  MetaPage.setRoot id
  MetaPage.setLevel (level + 1)

/-! ### Leaves -/

variable {δ : Type} [Device δ]

/-- Cuts a full leaf in half and puts a row that goes to place `i` into one of them. -/
def splitLeaf (id : PageId) (count i : Nat) (row : ρ) : SessionM δ (PutResult ρ) := do
  let mid := count / 2
  let right ← t.allocate
  let left ← Session.view t.cache id pure
  Session.edit t.cache right (t.fillRightLeaf right left mid count)
  Session.edit t.cache id (Node.setCount mid)
  if i ≤ mid then Session.edit t.cache id (t.insertRow i row)
  else Session.edit t.cache right (t.insertRow (i - mid) row)
  let sep ← Session.view t.cache right (t.rows.loadSlot t.rows.leaf 0)
  return ⟨none, some (sep, right)⟩

/-- Puts a row at its place in a leaf. -/
def putInLeaf (id : PageId) (at_ : Position) (row : ρ) : SessionM δ (PutResult ρ) := do
  match at_ with
  | .found i => return ⟨some (← Session.edit t.cache id (t.replaceRow i row)), none⟩
  | .gap i =>
    let (count, size) ← Session.view t.cache id fun p => return (← Node.count p, p.size)
    if count < t.rows.leaf.capacity size then
      Session.edit t.cache id (t.insertRow i row)
      return ⟨none, none⟩
    else t.splitLeaf id count i row

/-! ### Inner nodes -/

/-- Cuts a full inner node in half and puts a separator behind child `i` into one of
them. The result is the middle key and the new node. -/
def splitInner (id : PageId) (count i : Nat) (sep : ρ) (link : PageId) :
    SessionM δ (ρ × PageId) := do
  let mid := count / 2
  let promoted ← Session.view t.cache id (t.rows.loadSlot t.rows.inner mid)
  let right ← t.allocate
  let left ← Session.view t.cache id pure
  Session.edit t.cache right (t.fillRightInner right left mid count)
  Session.edit t.cache id (Node.setCount mid)
  if i ≤ mid then Session.edit t.cache id (t.insertSeparator i sep link)
  else Session.edit t.cache right (t.insertSeparator (i - mid - 1) sep link)
  return (promoted, right)

/-- Puts a separator and the link to a new node behind child `i` of an inner node. -/
def putSeparator (id : PageId) (i : Nat) (sep : ρ) (link : PageId) :
    SessionM δ (Option (ρ × PageId)) := do
  let (count, size) ← Session.view t.cache id fun p => return (← Node.count p, p.size)
  if count < t.rows.inner.capacity size then
    Session.edit t.cache id (t.insertSeparator i sep link)
    return none
  else some <$> t.splitInner id count i sep link

/-! ### The tree -/

/-- Puts a row into the part of the tree below a page, at most `n` pages deep. -/
def putFrom (row : ρ) : (n : Nat) → PageId → SessionM δ (PutResult ρ)
  | 0, _ => throw .endless
  | n + 1, id => do
    match ← Session.edit t.cache id (.look (t.arrive row id)) with
    | .leaf at_ => t.putInLeaf id at_ row
    | .inner i child =>
      let below ← putFrom row n child
      match below.split with
      | none => return ⟨below.old, none⟩
      | some (sep, right) => return ⟨below.old, ← t.putSeparator id i sep right⟩

/-- Puts a row into the tree, in place of an equal row. The result is the row that
was replaced. -/
def put (row : ρ) : SessionM δ (Option ρ) := do
  if let .error e := t.rows.fits row then Session.refuse e
  let root ← t.root
  let result ← t.putFrom row (← t.reach) root
  if let some (sep, right) := result.split then
    let new ← t.allocate
    Session.edit t.cache new (t.fillRoot new root sep right)
    Session.edit t.cache .metaPage (raiseRoot new)
  return result.old

end Tree

end PageCatalog
