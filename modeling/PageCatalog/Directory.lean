import PageCatalog.Tree.Find
import PageCatalog.Tree.Put
import PageCatalog.Tree.Remove
import PageCatalog.Tree.Walk

/-!
The directory of a cache: from the names of indexes to their root pages.

The directory is a tree of entries whose root stands in the meta page of the cache.
A meta page without a root means that the cache never had a directory.

* `Directory.start`: the directory of a cache, made if there is none.
* `Directory.obtain`: the root page of an index, allocated at its first use.
* `Directory.drop`: takes an index out and frees its root page.
* `Directory.entries`, `Directory.names`, `Directory.size`, `Directory.level`.
-/

namespace PageCatalog

/-- The root page of an index. -/
structure RootPage where
  address : PageAddress
  /-- Whether the call that returns it allocated it. -/
  allocated : Bool
  deriving DecidableEq, Repr

/-- The directory of a cache. -/
structure Directory where
  cache : CacheId

namespace Directory

/-- The name of the tree of a directory. -/
def treeName (c : CacheId) : String := s!"{c}##Meta"

/-- The tree of a directory. -/
def tree (d : Directory) : Tree Entry := ⟨treeName d.cache, d.cache, .entries⟩

/-- The bytes of a name. -/
def encode (name : String) : Bytes := name.toUTF8.data.toList

/-- The entry that is looked for under a name. -/
def searchKey (name : String) : Entry := ⟨encode name, .ofNat 0⟩

/-- The root page of an entry. -/
def rootPage (d : Directory) (page : PageId) (allocated : Bool) : RootPage :=
  ⟨⟨page, d.cache⟩, allocated⟩

variable {δ : Type} [Device δ]

/-- The directory of a cache. A new one is made if the meta page has no root. -/
def start (c : CacheId) : SessionM δ Directory := do
  let d : Directory := ⟨c⟩
  d.tree.start none
  return d

variable (d : Directory)

/-- The root page of an index, allocated and entered if the name is new. -/
def obtain (name : String) : SessionM δ RootPage := do
  if Entry.longestName < (encode name).length then
    Session.refuse (.nameTooLong Entry.longestName (encode name).length name)
  match ← d.tree.find? (searchKey name) with
  | some e => return d.rootPage e.page false
  | none =>
    let page ← Session.allocate d.cache 0 .index
    discard <| d.tree.put ⟨encode name, page⟩
    return d.rootPage page true

/-- Takes an index out of the directory and frees its root page. The entry stays if
the page cannot be had. -/
def drop (name : String) : SessionM δ (Option RootPage) := do
  -- a name that is too long was never entered
  if Entry.longestName < (encode name).length then return none
  match ← d.tree.find? (searchKey name) with
  | none => return none
  | some e =>
    discard <| Session.frame d.cache e.page
    discard <| d.tree.remove (searchKey name)
    Session.free d.cache e.page
    return some (d.rootPage e.page false)

/-- All entries in the order of their names. -/
def entries : SessionM δ (List Entry) := d.tree.toList

/-- All names in order, as far as they are text. -/
def names : SessionM δ (List String) :=
  return (← d.entries).map fun e => Text.decodeLossy e.name

/-- The number of entries. -/
def size : SessionM δ Nat := d.tree.size

def isEmpty : SessionM δ Bool := return (← d.size) = 0

/-- The level of the tree, zero while it is a single leaf. -/
def level : SessionM δ Nat := d.tree.level

end Directory

end PageCatalog
