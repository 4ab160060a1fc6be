import PageCatalog.Page
import PageCatalog.Text.Lossy

/-!
Entries of the directory and their form in a slot.

An entry leads from the name of an index to the root page of the index. In a page
it takes

    length 1 | name, length bytes | page id 8

and what follows in its slot is never read. Entries are compared by name alone,
so an entry with any page id serves as a search key.

* `Entry`, `Entry.order`.
* `Entry.checkName`: which names fit.
* `Entry.store`, `Entry.load`: an entry in a page.
* `Entry.copy`: an entry from page to page as it stands.
* `Entry.compareAt`: the order of a stored entry and a name, from the name bytes
  alone.
-/

namespace PageCatalog

/-- The root page of an index, under the index's name. -/
structure Entry where
  name : Bytes
  page : PageId
  deriving DecidableEq, Repr

namespace Entry

/-- The longest name in bytes. -/
def longestName : Nat := 64

/-- Bytes of a slot that holds any entry. -/
def slotWidth : Nat := 1 + longestName + 8

/-- Bytes of an entry in a page. -/
def encodedLength (e : Entry) : Nat := 1 + e.name.length + 8

/-- Entries stand in the order of their names. -/
def order (a b : Entry) : Ordering := Bytes.order a.name b.name

def inspect (e : Entry) : String :=
  s!"IndexItem \x7b name: {Text.quote (Text.decodeLossy e.name)}, page_id: {e.page.text} \x7d"

/-- An entry with its fields on lines of their own. -/
def inspectLines (e : Entry) : String :=
  s!"IndexItem \x7b\n    name: {Text.quote (Text.decodeLossy e.name)},\n    page_id: {e.page.text},\n\x7d"

/-- Refuses a name that does not fit into a slot. -/
def checkName (name : Bytes) : Except Error Unit :=
  if name.length ≤ longestName then .ok ()
  else .error (.nameTooLong longestName name.length (Text.decodeLossy name))

/-- The page with an entry written at `off`. -/
def store (p : Page) (off : Nat) (e : Entry) : Except Failure Page :=
  match checkName e.name with
  | .error refusal => .error (.error refusal)
  | .ok () =>
    p.splice off (Bytes.ofNat 1 e.name.length ++ e.name ++ Bytes.ofNat 8 e.page.toNat)

/-- The length of the name stored at `off`, if the entry there can be read. -/
def nameLength (p : Page) (off : Nat) : Except Failure Nat := do
  let n ← p.number off 1
  if longestName < n then throw (.error (.corrupted (.nameLength n off longestName)))
  if p.size < off + 1 + n + 8 then throw (.error (.corrupted (.rowPastEnd off)))
  return n

/-- The entry at `off`. -/
def load (p : Page) (off : Nat) : Except Failure Entry := do
  let n ← nameLength p off
  return ⟨← p.slice (off + 1) n, ← p.pageId (off + 1 + n)⟩

/-- The page `dst` with the entry at `srcOff` of `src` copied to `dstOff`. -/
def copy (dst : Page) (dstOff : Nat) (src : Page) (srcOff : Nat) : Except Failure Page := do
  let n ← nameLength src srcOff
  dst.splice dstOff (← src.slice srcOff (1 + n + 8))

/-- The bytes of the name stored at `off`, cut to what a slot holds. -/
def nameAt (p : Page) (off : Nat) : Except Failure Bytes := do
  let n ← p.number off 1
  p.slice (off + 1) (min n longestName)

/-- The order of the entry stored at `off` and another one. -/
def compareAt (p : Page) (off : Nat) (e : Entry) : Except Failure Ordering := do
  return Bytes.order (← nameAt p off) e.name

end Entry

end PageCatalog
