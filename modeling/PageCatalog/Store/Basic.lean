import PageCatalog.Page
import PageCatalog.Device.Transfer
import PageCatalog.Device.Path
import Std.Data.TreeMap

/-!
A store of pages in files.

Pages are grouped by cache, and each cache has a file of its own. Page `i` of a
cache lies at `i` times the page size in its file. A page that was asked for
stays in memory until the store is opened again; changes reach the file when the
store is flushed. The first page of a cache always exists. A freed page is never
handed out again.

* `Options`, `Options.check`: the settings, and which are refused.
* `Frame`: a page in memory.
* `CacheFile`: an open cache; `PageStore`: the open caches of a folder.
* `Session`: a store together with the device under it; `SessionM`: computations
  on a session.
-/

namespace PageCatalog

/-- Settings of a store. -/
structure Options where
  /-- Size of a page in bytes. -/
  pageSize : Nat := 4096
  /-- Whether missing folders and cache files are created. -/
  createIfMissing : Bool := true
  deriving DecidableEq, Repr

namespace Options

def leastPageSize : Nat := 512

def greatestPageSize : Nat := 65536

/-- Page sizes are the powers of two in the range. -/
def validPageSize (n : Nat) : Bool :=
  n = 1 <<< n.log2 ∧ leastPageSize ≤ n ∧ n ≤ greatestPageSize

/-- Refuses a page size that is not valid. -/
def check (o : Options) : Except Error Unit :=
  if validPageSize o.pageSize then .ok ()
  else .error (.invalidConfig (.pageSize o.pageSize leastPageSize greatestPageSize))

def inspect (o : Options) : String :=
  s!"Options \x7b page_size: {o.pageSize}, create_if_missing: {o.createIfMissing} \x7d"

end Options

/-- A page in memory. -/
structure Frame where
  /-- The id by which the page was first asked for. -/
  id : PageId
  bytes : Page
  /-- Whether the page has to be written to its file. -/
  dirty : Bool
  /-- Whether the page was freed. -/
  freed : Bool := false

/-- An open cache. -/
structure CacheFile where
  path : String
  /-- The number of pages: the index of the page that is allocated next. -/
  next : Nat
  /-- The pages in memory by their index. -/
  frames : Std.TreeMap Nat Frame := .empty

namespace CacheFile

/-- Indexes are below this number, and it is no index itself. -/
def indexLimit : Nat := 0xFFFFFFFF

/-- The number of freed pages. -/
def freedCount (k : CacheFile) : Nat :=
  (k.frames.toList.filter fun e => e.2.freed).length

end CacheFile

/-- The open caches of a folder. -/
structure PageStore where
  folder : String
  options : Options
  caches : Std.TreeMap CacheId CacheFile := .empty

/-- The path of the file of a cache. -/
def PageStore.pathOf (store : PageStore) (c : CacheId) : String :=
  Path.join store.folder s!"cache-{c}.pages"

/-- A store and the device that holds its files. -/
structure Session (δ : Type) where
  device : δ
  store : PageStore

/-- Computations on a session. What they changed before they fail stays changed. -/
abbrev SessionM (δ : Type) := ExceptT Failure (StateM (Session δ))

end PageCatalog
