import PageCatalog.PageId
import PageCatalog.Text.Quoted

/-!
What can go wrong, by cause.

* `IoError`: what a device says when it refuses a call.
* `Damage`: how stored pages contradict themselves.
* `Misuse`: settings and requests that are refused.
* `Error`: everything a caller may meet; `Error.message` is its text and
  `Error.inspect` the text with all its fields.
* `Failure`: an error, or the end of a computation that has no answer: a read or
  write outside a page, a level that does not fit, links that lead in a circle, a wait
  for a page that the computation holds itself.
-/

namespace PageCatalog

/-! ### Devices -/

/-- The kinds of device errors. -/
inductive IoKind where
  | notFound | permissionDenied | connectionRefused | connectionReset | hostUnreachable
  | networkUnreachable | connectionAborted | notConnected | addrInUse | addrNotAvailable
  | networkDown | brokenPipe | alreadyExists | wouldBlock | notADirectory | isADirectory
  | directoryNotEmpty | readOnlyFilesystem | staleNetworkFileHandle | invalidInput | invalidData
  | timedOut | writeZero | storageFull | notSeekable | quotaExceeded | fileTooLarge
  | resourceBusy | executableFileBusy | deadlock | crossesDevices | tooManyLinks
  | invalidFilename | argumentListTooLong | interrupted | unsupported | unexpectedEof
  | outOfMemory | other
  deriving DecidableEq, Repr

namespace IoKind

/-- Every kind with its name. -/
def named : List (IoKind × String) :=
  [(notFound, "NotFound"), (permissionDenied, "PermissionDenied"),
   (connectionRefused, "ConnectionRefused"), (connectionReset, "ConnectionReset"),
   (hostUnreachable, "HostUnreachable"), (networkUnreachable, "NetworkUnreachable"),
   (connectionAborted, "ConnectionAborted"), (notConnected, "NotConnected"),
   (addrInUse, "AddrInUse"), (addrNotAvailable, "AddrNotAvailable"),
   (networkDown, "NetworkDown"), (brokenPipe, "BrokenPipe"),
   (alreadyExists, "AlreadyExists"), (wouldBlock, "WouldBlock"),
   (notADirectory, "NotADirectory"), (isADirectory, "IsADirectory"),
   (directoryNotEmpty, "DirectoryNotEmpty"), (readOnlyFilesystem, "ReadOnlyFilesystem"),
   (staleNetworkFileHandle, "StaleNetworkFileHandle"), (invalidInput, "InvalidInput"),
   (invalidData, "InvalidData"), (timedOut, "TimedOut"), (writeZero, "WriteZero"),
   (storageFull, "StorageFull"), (notSeekable, "NotSeekable"),
   (quotaExceeded, "QuotaExceeded"), (fileTooLarge, "FileTooLarge"),
   (resourceBusy, "ResourceBusy"), (executableFileBusy, "ExecutableFileBusy"),
   (deadlock, "Deadlock"), (crossesDevices, "CrossesDevices"),
   (tooManyLinks, "TooManyLinks"), (invalidFilename, "InvalidFilename"),
   (argumentListTooLong, "ArgumentListTooLong"), (interrupted, "Interrupted"),
   (unsupported, "Unsupported"), (unexpectedEof, "UnexpectedEof"),
   (outOfMemory, "OutOfMemory"), (other, "Other")]

/-- The name of a kind. -/
def name (k : IoKind) : String :=
  (named.lookup k).getD "Other"

/-- The kind with a given name. -/
def ofName? (s : String) : Option IoKind :=
  (named.find? fun e => e.2 = s).map (·.1)

end IoKind

/-- Refusals of a hierarchical file system, each with its number. -/
inductive SystemError where
  | noEntry
  | entryExists
  | notFolder
  | isFolder
  | fileTooLarge
  | nameTooLong
  deriving DecidableEq, Repr

namespace SystemError

def number : SystemError → Nat
  | noEntry => 2
  | entryExists => 17
  | notFolder => 20
  | isFolder => 21
  | fileTooLarge => 27
  | nameTooLong => 36

def kind : SystemError → IoKind
  | noEntry => .notFound
  | entryExists => .alreadyExists
  | notFolder => .notADirectory
  | isFolder => .isADirectory
  | fileTooLarge => .fileTooLarge
  | nameTooLong => .invalidFilename

def text : SystemError → String
  | noEntry => "No such file or directory"
  | entryExists => "File exists"
  | notFolder => "Not a directory"
  | isFolder => "Is a directory"
  | fileTooLarge => "File too large"
  | nameTooLong => "File name too long"

end SystemError

/-- What a device says when it refuses a call. -/
inductive IoError where
  /-- A read met the end of the file. -/
  | endOfFile
  /-- A write took no byte. -/
  | nothingWritten
  /-- A call was interrupted before it moved anything. -/
  | interruption
  /-- A refusal of a given kind, in the device's own words. -/
  | stated (kind : IoKind) (text : String)
  /-- A path holds the character that ends a path. -/
  | nulInPath
  /-- A refusal of a file system. -/
  | system (e : SystemError)
  deriving DecidableEq, Repr

namespace IoError

def kind : IoError → IoKind
  | endOfFile => .unexpectedEof
  | nothingWritten => .writeZero
  | interruption => .interrupted
  | stated k _ => k
  | nulInPath => .invalidInput
  | system e => e.kind

def message : IoError → String
  | endOfFile => "unexpected end of file"
  | nothingWritten => "write zero"
  | interruption => "operation interrupted"
  | stated _ t => t
  | nulInPath => "file name contained an unexpected NUL byte"
  | system e => s!"{e.text} (os error {e.number})"

def inspect : IoError → String
  | endOfFile => "Kind(UnexpectedEof)"
  | nothingWritten => "Kind(WriteZero)"
  | interruption => "Kind(Interrupted)"
  | stated k t => s!"Custom \x7b kind: {k.name}, error: {Text.quote t} \x7d"
  | nulInPath =>
    s!"Error \x7b kind: InvalidInput, message: {Text.quote nulInPath.message} \x7d"
  | system e =>
    s!"Os \x7b code: {e.number}, kind: {e.kind.name}, message: {Text.quote e.text} \x7d"

end IoError

/-! ### Pages -/

/-- The fields at the head of a tree page. -/
structure NodeHeader where
  tag : Nat
  version : Nat
  count : Nat
  self : PageId
  deriving DecidableEq, Repr

/-- The fields of a header, as they are shown in a message. -/
def NodeHeader.inspect (h : NodeHeader) : String :=
  s!"NodeHeader \x7b type: {h.tag}, version: {h.version}, count: {h.count}, self_id: {h.self.text} \x7d"

/-- How stored pages contradict themselves. -/
inductive Damage where
  /-- No space has this tag. -/
  | spaceTag (tag : Nat)
  /-- The meta page of a cache was to be freed. -/
  | metaFreed (cache : CacheId)
  /-- A cache file ends inside a page. -/
  | fileSize (path : String) (size pageSize : Nat)
  /-- A page has another type than expected. -/
  | pageType (found expected : Nat)
  /-- A page was written by an unknown version. -/
  | pageVersion (version tag : Nat)
  /-- A page names another page as itself. -/
  | selfId (asked named : PageId)
  /-- A link of a tree leads to a page of no known type. -/
  | notANode (page : PageId) (tree : String) (header : NodeHeader)
  /-- A page counts more keys than fit. -/
  | keyCount (page : PageId) (tree : String) (count most : Nat)
  /-- A tree was to be opened where none was made. -/
  | noRoot (tree : String)
  /-- The length byte of a row is above the longest name. -/
  | nameLength (length offset most : Nat)
  /-- A row ends behind its page. -/
  | rowPastEnd (offset : Nat)
  /-- Damage in a caller's words. -/
  | stated (reason : String)
  deriving DecidableEq, Repr

/-- What a damage is reported as. -/
def Damage.reason : Damage → String
  | spaceTag n => s!"invalid allocation space flag: {n}"
  | metaFreed c => s!"attempt to free the meta page of cache {c}"
  | fileSize path size pageSize =>
    s!"cache file {path} has size {size} which is not a multiple of page size {pageSize}"
  | pageType found expected => s!"unexpected page type {found}, expected {expected}"
  | pageVersion v t => s!"unknown version {v} of page type {t}"
  | selfId asked named => s!"page {asked.text} claims to be page {named.text}"
  | notANode page tree header =>
    s!"page {page.text} of tree {tree} is not a tree node: {header.inspect}"
  | keyCount page tree count most =>
    s!"page {page.text} of tree {tree} holds {count} keys, at most {most} fit"
  | noRoot tree => s!"tree {tree} has no root page"
  | nameLength length offset most =>
    s!"index name length {length} at offset {offset} exceeds {most}"
  | rowPastEnd offset => s!"row at offset {offset} runs past the page"
  | stated reason => reason

/-! ### Callers -/

/-- Settings and requests that are refused. -/
inductive Misuse where
  /-- A page size that is no power of two in the range. -/
  | pageSize (size least greatest : Nat)
  /-- A refusal in a caller's words. -/
  | stated (reason : String)
  deriving DecidableEq, Repr

/-- What a misuse is reported as. -/
def Misuse.reason : Misuse → String
  | pageSize size least greatest =>
    s!"page size {size} must be a power of two in [{least}, {greatest}]"
  | stated reason => reason

/-- Everything a caller may meet. -/
inductive Error where
  /-- The bytes of a name do not fit into a slot. -/
  | nameTooLong (max actual : Nat) (name : String)
  /-- A device refused a call. -/
  | io (cause : IoError)
  /-- A page that is not allocated, or freed. -/
  | pageNotFound (page : PageId) (cache : CacheId)
  /-- A cache has no index left for a new page. -/
  | outOfSpace (cache : CacheId)
  /-- Stored pages contradict themselves; nothing is repaired. -/
  | corrupted (damage : Damage)
  /-- A setting or a request is refused. -/
  | invalidConfig (misuse : Misuse)
  deriving DecidableEq, Repr

namespace Error

/-- The text of an error. -/
def message : Error → String
  | nameTooLong max actual name =>
    s!"Too long encoded index name [maxAllowed={max}, currentLength={actual}, name={name}]"
  | io e => s!"I/O error: {e.message}"
  | pageNotFound p c => s!"Page {p.text} of cache {c} not found"
  | outOfSpace c => s!"Out of space: cannot allocate more pages for cache {c}"
  | corrupted d => s!"Corrupted tree: {d.reason}"
  | invalidConfig m => s!"Invalid config: {m.reason}"

/-- An error with all its fields. -/
def inspect : Error → String
  | nameTooLong max actual name =>
    s!"NameTooLong \x7b max: {max}, actual: {actual}, name: {Text.quote name} \x7d"
  | io e => s!"Io \x7b source: {e.inspect} \x7d"
  | pageNotFound p c => s!"PageNotFound \x7b page_id: {p.toNat}, cache_id: {c} \x7d"
  | outOfSpace c => s!"OutOfSpace \x7b cache_id: {c} \x7d"
  | corrupted d => s!"Corrupted \x7b reason: {Text.quote d.reason} \x7d"
  | invalidConfig m => s!"InvalidConfig \x7b reason: {Text.quote m.reason} \x7d"

end Error

/-- Why a computation on pages has no result. -/
inductive Failure where
  /-- It was refused for a reason its caller can act on. -/
  | error (e : Error)
  /-- It read or wrote outside a page. -/
  | outOfBounds
  /-- A tree outgrew the field that holds its level. -/
  | levelOverflow
  /-- It follows links that lead in a circle and never ends. -/
  | endless
  /-- It waits for a page that it holds itself and never ends. -/
  | stuck
  deriving DecidableEq, Repr

/-- The space with a given tag, or what is wrong with the tag. -/
def Space.ofCode (n : Nat) : Except Error Space :=
  match ofCode? n with
  | some s => .ok s
  | none => .error (.corrupted (.spaceTag n))

end PageCatalog
