import PageCatalog.Tree.Basic

/-!
Removing a row from a tree.

Nodes are not filled up from their neighbours. A node that has become empty is
freed, and its parent loses the link to it together with a key beside that link.
An inner root with a single child gives way to that child; a root whose last child
is gone becomes an empty leaf.

* `Tree.removeFrom`: the row and the nodes that it empties.
* `Tree.resetRoot`, `Tree.collapseRoot`: the root afterwards.
* `Tree.remove`: the whole.
-/

namespace PageCatalog

/-- What removing a row from a part of a tree did: the row that was there, and
whether nothing is left of the part. -/
structure RemoveResult (ρ : Type) where
  old : Option ρ
  empty : Bool

namespace Tree

variable {ρ : Type} (t : Tree ρ)

/-! ### Steps on one page -/

/-- Takes the row out of slot `i` of a leaf. -/
def eraseRow (i : Nat) : PageM (RemoveResult ρ) := do
  let old ← .look (t.rows.loadSlot t.rows.leaf i)
  let count ← .look Node.count
  Node.closeSlot t.rows.leaf i count
  Node.setCount (count - 1)
  return ⟨some old, count = 1⟩

/-- Takes the link to child `i` out of an inner node, with the key before it, or with
the first key if it is the first link. A node without keys stays as it is and says
that nothing is left of it. -/
def eraseLink (i : Nat) : PageM Bool := do
  let count ← .look Node.count
  if count = 0 then return true
  Node.closeSlot t.rows.inner (i - 1) count
  Node.removeLink t.rows.inner i (count + 1)
  Node.setCount (count - 1)
  return false

/-- Turns an inner root into an empty leaf and says whether it did. -/
def clearRoot (root : PageId) : PageM Bool := do
  match ← .look (t.kind root) with
  | .leaf => return false
  | .inner =>
    Node.init t.rows.leaf root
    return true

/-- The only child of an inner node without keys. -/
def onlyChild? (id : PageId) (p : Page) : Except Failure (Option PageId) := do
  match ← t.kind id p with
  | .leaf => return none
  | .inner => if 0 < (← Node.count p) then return none else some <$> Node.link t.rows.inner 0 p

/-- Enters a new root one level down into the meta page. -/
def lowerRoot (id : PageId) : PageM Unit := do
  let level ← .look MetaPage.level
  MetaPage.setRoot id
  MetaPage.setLevel (level - 1)

/-! ### The tree -/

variable {δ : Type} [Device δ]

/-- Removes a row from the part of the tree below a page, at most `n` pages deep, and
frees the nodes that it empties. -/
def removeFrom (row : ρ) : (n : Nat) → PageId → SessionM δ (RemoveResult ρ)
  | 0, _ => throw .endless
  | n + 1, id => do
    match ← Session.edit t.cache id (.look (t.arrive row id)) with
    | .leaf (.gap _) => return ⟨none, false⟩
    | .leaf (.found i) => Session.edit t.cache id (t.eraseRow i)
    | .inner i child =>
      let below ← removeFrom row n child
      if below.empty then
        let empty ← Session.edit t.cache id (t.eraseLink i)
        Session.free t.cache child
        return ⟨below.old, empty⟩
      else return ⟨below.old, false⟩

/-- Makes a root whose last child is gone an empty leaf again. The root is held until its new
level is entered into the meta page, so this waits for ever if the meta page names itself as the
root. -/
def resetRoot (root : PageId) : SessionM δ Unit := do
  if ← Session.edit t.cache root (t.clearRoot root) then
    if root.index = 0 then throw .stuck
    else Session.edit t.cache .metaPage (MetaPage.setLevel 0)

/-- Replaces an inner root with a single child by that child, at most `n` times. Each
time a page is freed. -/
def collapseRoot : (n : Nat) → SessionM δ Unit
  | 0 => throw .endless
  | n + 1 => do
    let root ← t.root
    match ← Session.view t.cache root (t.onlyChild? root) with
    | none => return ()
    | some child =>
      Session.edit t.cache .metaPage (lowerRoot child)
      Session.free t.cache root
      collapseRoot n

/-- Removes the row equal to a given one. The result is the row that was there. -/
def remove (row : ρ) : SessionM δ (Option ρ) := do
  let root ← t.root
  let result ← t.removeFrom row (← t.reach) root
  if result.empty then t.resetRoot root
  t.collapseRoot (← t.reach)
  return result.old

end Tree

end PageCatalog
