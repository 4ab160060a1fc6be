import PageCatalog.Text.Hex

/-!
Names of pages.

A page id is a word of 64 bits that carries the space its page was taken from,
a partition and the position of the page in its cache file, from the top:

    space 8 | unused 8 | partition 16 | index 32

* `Space`: what a page was taken for; `Space.ofCode?` refuses other tags.
* `PageId`, `PageId.make`: an id from its parts. `PageId.index_make`,
  `PageId.partition_make` and `PageId.space?_make` read the parts back.
* `PageAddress`: a page of a particular cache.
-/

namespace PageCatalog

/-- Number of a cache. -/
abbrev CacheId := UInt32

/-- What a page was taken for: the content of an index, a node or the root of an
index, or the first page of a cache. -/
inductive Space where
  | data
  | index
  | bootstrap
  deriving DecidableEq, Repr

namespace Space

/-- The tag of a space in a page id. -/
def code : Space → Nat
  | data => 1
  | index => 2
  | bootstrap => 3

/-- The space with a given tag. -/
def ofCode? : Nat → Option Space
  | 1 => some data
  | 2 => some index
  | 3 => some bootstrap
  | _ => none

/-- The name a space is shown by. -/
def name : Space → String
  | data => "Data"
  | index => "Index"
  | bootstrap => "Meta"

@[simp] theorem ofCode?_code (s : Space) : ofCode? s.code = some s := by
  cases s <;> rfl

theorem code_lt (s : Space) : s.code < 256 := by
  cases s <;> decide

end Space

/-- The id of a page. -/
structure PageId where
  word : UInt64
  deriving DecidableEq, Repr

namespace PageId

/-- The id whose word is `n`, cut to 64 bits. -/
def ofNat (n : Nat) : PageId := ⟨UInt64.ofNat n⟩

/-- The word of an id as a number. -/
def toNat (p : PageId) : Nat := p.word.toNat

/-- The id of the page at `index`, taken from `space` for `partition`. -/
def make (partition : UInt16) (space : Space) (index : Nat) : PageId :=
  ofNat (space.code * 0x100000000000000 + partition.toNat * 0x100000000 + index % 0x100000000)

/-- Position of the page in its cache file. -/
def index (p : PageId) : Nat := p.toNat % 0x100000000

/-- The partition an id carries. -/
def partition (p : PageId) : Nat := p.toNat / 0x100000000 % 0x10000

/-- The tag in the place of the space, whether or not it names one. -/
def spaceCode (p : PageId) : Nat := p.toNat / 0x100000000000000

/-- The space an id carries. -/
def space? (p : PageId) : Option Space := Space.ofCode? p.spaceCode

/-- The id of the meta page of every cache. -/
def metaPage : PageId := make 0 .bootstrap 0

/-- An id as it is shown: `0x` and 16 digits. -/
def text (p : PageId) : String := Text.hexWord p.toNat

/-! ### The parts of a made id -/

theorem toNat_make (partition : UInt16) (space : Space) (i : Nat) :
    (make partition space i).toNat
      = space.code * 0x100000000000000 + partition.toNat * 0x100000000 + i % 0x100000000 := by
  have hs := space.code_lt
  have hp := partition.toNat_lt
  simp only [make, ofNat, toNat, UInt64.toNat_ofNat']
  omega

theorem index_make (partition : UInt16) (space : Space) (i : Nat) :
    (make partition space i).index = i % 0x100000000 := by
  rw [index, toNat_make]; omega

theorem partition_make (part : UInt16) (space : Space) (i : Nat) :
    (make part space i).partition = part.toNat := by
  have hp := part.toNat_lt
  rw [partition, toNat_make]; omega

theorem space?_make (partition : UInt16) (space : Space) (i : Nat) :
    (make partition space i).space? = some space := by
  have hp := partition.toNat_lt
  have h : (make partition space i).spaceCode = space.code := by
    rw [spaceCode, toNat_make]; omega
  rw [space?, h, Space.ofCode?_code]

end PageId

/-- A page of a particular cache. -/
structure PageAddress where
  page : PageId
  cache : CacheId
  deriving DecidableEq, Repr

namespace PageAddress

/-- An address as messages show it. -/
def text (a : PageAddress) : String :=
  s!"FullPageId [pageId={a.page.text}, cacheId={a.cache}]"

/-- An address with its fields, ids in decimals. -/
def inspect (a : PageAddress) : String :=
  s!"FullPageId \x7b page_id: {a.page.toNat}, cache_id: {a.cache} \x7d"

end PageAddress

end PageCatalog
