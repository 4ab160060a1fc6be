import PageCatalog.Page

/-!
Tree nodes in pages.

A node starts with a header of 16 bytes,

    type 2 | version 2 | count 2 | reserved 2 | own page id 8

followed by as many key slots of one width as fit. A page of an inner node keeps
one child link more than keys, in an array behind the last slot.

* `NodeLayout`: type, versions and slot width of a kind of node, and from them the
  place of every slot and link.
* `NodeLayout.check`: whether a page was written by a known version.
* `Node.header` and its fields; `Node.init`, an empty node.
* `Node.openSlot`, `Node.closeSlot`, `Node.insertLink`, `Node.removeLink`: making
  room and closing gaps.
-/

namespace PageCatalog

/-- What sets one kind of node apart from others. -/
structure NodeLayout where
  /-- The type that pages of this kind carry. -/
  tag : Nat
  /-- The version that new pages get; versions from 1 to this one are known. -/
  latest : Nat
  /-- Leaves hold rows; inner nodes hold separators and child links. -/
  isLeaf : Bool
  /-- Width of a key slot in bytes. -/
  width : Nat
  deriving DecidableEq, Repr

/-- Bytes before the first slot. -/
def Node.headerSize : Nat := 16

/-- Bytes of a child link. -/
def Node.linkSize : Nat := 8

namespace NodeLayout

/-- Where slot `i` starts. -/
def offset (L : NodeLayout) (i : Nat) : Nat := Node.headerSize + i * L.width

/-- The number of slots in a page. An inner node has room for one link more. -/
def capacity (L : NodeLayout) (pageSize : Nat) : Nat :=
  if L.isLeaf then (pageSize - Node.headerSize) / L.width
  else (pageSize - Node.headerSize - Node.linkSize) / (L.width + Node.linkSize)

/-- Where link `i` starts. -/
def linkOffset (L : NodeLayout) (pageSize i : Nat) : Nat :=
  L.offset (L.capacity pageSize) + i * Node.linkSize

end NodeLayout

namespace Node

/-! ### The header -/

/-- The type of a node. -/
def tag (p : Page) : Except Failure Nat := p.number 0 2

/-- The version that wrote a node. -/
def version (p : Page) : Except Failure Nat := p.number 2 2

/-- The number of keys of a node. -/
def count (p : Page) : Except Failure Nat := p.number 4 2

/-- The page that a node says it is. -/
def self (p : Page) : Except Failure PageId := p.pageId 8

/-- All fields of the header. -/
def header (p : Page) : Except Failure NodeHeader := do
  return ⟨← tag p, ← version p, ← count p, ← self p⟩

/-- Writes the number of keys. -/
def setCount (n : Nat) : PageM Unit := .change fun p => p.setNumber 4 2 n

/-- An empty node of a layout. Only the header is written. -/
def init (L : NodeLayout) (id : PageId) : PageM Unit := .change fun p =>
  p.splice 0 (Bytes.ofNat 2 L.tag ++ Bytes.ofNat 2 L.latest ++ Bytes.ofNat 2 0 ++ Bytes.ofNat 2 0
    ++ Bytes.ofNat 8 id.toNat)

end Node

/-- Refuses a page of another type, or one written by an unknown version. -/
def NodeLayout.check (L : NodeLayout) (p : Page) : Except Failure Unit := do
  let tag ← Node.tag p
  let version ← Node.version p
  if tag ≠ L.tag then throw (.error (.corrupted (.pageType tag L.tag)))
  if version = 0 ∨ L.latest < version then throw (.error (.corrupted (.pageVersion version tag)))

namespace Node

/-! ### Slots -/

/-- Makes room at slot `i` of `n`: the slots from there on move one place up. -/
def openSlot (L : NodeLayout) (i n : Nat) : PageM Unit := .change fun p =>
  p.slide (L.offset i) (L.offset n) (L.offset (i + 1))

/-- Closes slot `i` of `n`: the slots behind it move one place down. -/
def closeSlot (L : NodeLayout) (i n : Nat) : PageM Unit := .change fun p =>
  p.slide (L.offset (i + 1)) (L.offset n) (L.offset i)

/-! ### Links -/

/-- The child link at a position. -/
def link (L : NodeLayout) (i : Nat) (p : Page) : Except Failure PageId :=
  p.pageId (L.linkOffset p.size i)

/-- Writes the child link at a position. -/
def setLink (L : NodeLayout) (i : Nat) (id : PageId) : PageM Unit := .change fun p =>
  p.setPageId (L.linkOffset p.size i) id

/-- Puts a link at position `i` among `n` links. -/
def insertLink (L : NodeLayout) (i n : Nat) (id : PageId) : PageM Unit := do
  .change fun p => p.slide (L.linkOffset p.size i) (L.linkOffset p.size n)
    (L.linkOffset p.size i + linkSize)
  setLink L i id

/-- Takes the link at position `i` out of `n` links. -/
def removeLink (L : NodeLayout) (i n : Nat) : PageM Unit := .change fun p =>
  p.slide (L.linkOffset p.size i + linkSize) (L.linkOffset p.size n) (L.linkOffset p.size i)

end Node

end PageCatalog
