import PageCatalog.Entry
import PageCatalog.Node

/-!
What a tree needs to know of its rows.

* `RowFormat`: the layouts of leaves and inner nodes, how a row is written, read,
  copied and compared in a slot, and where pages for nodes come from.
* `RowFormat.entries`: the rows of the directory.
* `RowFormat.keys w`: rows that are plain numbers of 64 bits, in slots of `w` bytes
  of which the first eight are used.
-/

namespace PageCatalog

/-- What a tree needs to know of its rows. Offsets are places in a page. -/
structure RowFormat (ρ : Type) where
  leaf : NodeLayout
  inner : NodeLayout
  /-- Partition of the pages for nodes. -/
  partition : UInt16
  /-- Space of the pages for nodes. -/
  space : Space
  /-- Refuses a row that does not fit into a slot. -/
  fits : ρ → Except Error Unit
  /-- The order of the row stored at an offset and another one. -/
  compareAt : Page → Nat → ρ → Except Failure Ordering
  /-- The row stored at an offset. -/
  load : Page → Nat → Except Failure ρ
  /-- The page with a row written at an offset. -/
  store : Page → Nat → ρ → Except Failure Page
  /-- The first page with a row of the second one copied into it as it stands. -/
  copy : Page → Nat → Page → Nat → Except Failure Page

namespace RowFormat

/-- Rows of the directory. -/
def entries : RowFormat Entry where
  leaf := ⟨24, 1, true, Entry.slotWidth⟩
  inner := ⟨23, 1, false, Entry.slotWidth⟩
  partition := 0
  space := .index
  fits e := Entry.checkName e.name
  compareAt := Entry.compareAt
  load := Entry.load
  store := Entry.store
  copy := Entry.copy

/-- The number stored at an offset. -/
def loadKey (p : Page) (off : Nat) : Except Failure UInt64 :=
  (p.number off 8).map UInt64.ofNat

/-- Numbers of 64 bits in slots of a given width. -/
def keys (width : Nat) : RowFormat UInt64 where
  leaf := ⟨200, 2, true, width⟩
  inner := ⟨201, 2, false, width⟩
  partition := UInt16.ofNat width
  space := .data
  fits _ := .ok ()
  compareAt p off key := (loadKey p off).map fun k => compare k.toNat key.toNat
  load := loadKey
  store p off key := p.setNumber off 8 key.toNat
  copy dst dstOff src srcOff := (src.slice srcOff 8).bind (dst.splice dstOff)

variable {ρ : Type} (R : RowFormat ρ)

/-- Writes a row into slot `i`. -/
def storeSlot (L : NodeLayout) (i : Nat) (row : ρ) : PageM Unit :=
  .change fun p => R.store p (L.offset i) row

/-- The row in slot `i`. -/
def loadSlot (L : NodeLayout) (i : Nat) (p : Page) : Except Failure ρ :=
  R.load p (L.offset i)

/-- The order of the row in slot `i` and another one. -/
def compareSlot (L : NodeLayout) (i : Nat) (p : Page) (row : ρ) : Except Failure Ordering :=
  R.compareAt p (L.offset i) row

/-- Copies slot `j` of a page laid out by `K` into slot `i`. -/
def copySlot (L : NodeLayout) (i : Nat) (K : NodeLayout) (src : Page) (j : Nat) : PageM Unit :=
  .change fun p => R.copy p (L.offset i) src (K.offset j)

end RowFormat

end PageCatalog
