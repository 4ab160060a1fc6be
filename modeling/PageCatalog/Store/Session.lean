import PageCatalog.Store.Basic

/-!
What a session does with pages.

* `Session.start`: opens the store in a folder.
* `Session.cacheFile`: the cache of a number, opened at its first use.
* `Session.frame`, `Session.view`, `Session.edit`: a page in memory, a question
  to it, a change of it.
* `Session.allocate`, `Session.free`: new pages and freed ones.
* `Session.flush`: changed pages go to their files.
-/

namespace PageCatalog

namespace Session

variable {δ α : Type}

/-- A computation that is refused. -/
def refuse (e : Error) : SessionM δ α := throw (.error e)

/-- The result of a computation that needs no session. -/
def settle (r : Except Failure α) : SessionM δ α :=
  match r with
  | .ok a => pure a
  | .error e => throw e

/-- A call of the device and its answer. -/
def attempt (call : DeviceM δ α) : SessionM δ (Except IoError α) := fun s =>
  let ⟨device, store⟩ := s
  let (answer, device) := call device
  (.ok answer, ⟨device, store⟩)

/-- A call of the device that has to succeed. -/
def perform (call : DeviceM δ α) : SessionM δ α := do
  match ← attempt call with
  | .ok a => return a
  | .error e => refuse (.io e)

/-- The size of a page. -/
def pageSize : SessionM δ Nat := return (← get).store.options.pageSize

/-- Puts a frame into an open cache. -/
def putFrame (c : CacheId) (i : Nat) (f : Frame) : SessionM δ Unit :=
  modify fun s => { s with store.caches := s.store.caches.modify c fun k =>
    { k with frames := k.frames.insert i f } }

variable [Device δ]

/-- Opens the store in a folder. Cache files are opened at their first use. -/
def start (folder : String) (options : Options) : δ → Except Error PageStore × δ := fun d =>
  match options.check with
  | .error e => (.error e, d)
  | .ok () =>
    if options.createIfMissing then
      match Device.makeDirs folder d with
      | (.error e, d') => (.error (.io e), d')
      | (.ok (), d') => (.ok { folder, options }, d')
    else (.ok { folder, options }, d)

/-- The refusal to open a cache file that does not exist. -/
def missingFile (path : String) : Error :=
  .io (.stated .notFound s!"cache file {path} does not exist")

/-- The cache of a number. Its file is opened at the first use; the number of its
pages is found from the size of the file and held in 32 bits. -/
def cacheFile (c : CacheId) : SessionM δ CacheFile := do
  let store := (← get).store
  match store.caches[c]? with
  | some k => return k
  | none =>
    let path := store.pathOf c
    unless store.options.createIfMissing do
      if let .error _ ← attempt (Device.length path) then refuse (missingFile path)
    perform (Device.attach path)
    let size ← perform (Device.size path)
    let pageSize := store.options.pageSize
    if size % pageSize ≠ 0 then refuse (.corrupted (.fileSize path size pageSize))
    let k : CacheFile := { path, next := max (size / pageSize) 1 % 0x100000000 }
    modify fun s => { s with store.caches := s.store.caches.insert c k }
    return k

/-- The number of pages of a cache, the first one included. -/
def pageCount (c : CacheId) : SessionM δ Nat := return (← cacheFile c).next

/-- The number of pages of a cache that were freed in this session. -/
def freedCount (c : CacheId) : SessionM δ Nat := return (← cacheFile c).freedCount

/-- The page at an index of a file. A page that is not wholly in the file was never
written and is full of zeros. -/
def load (path : String) (i : Nat) : SessionM δ Page := do
  let size ← pageSize
  if i * size + size ≤ (← perform (Device.size path)) then
    perform (Device.readExact path (i * size) size)
  else return Page.zeros size

/-- The page of an id in memory, brought there if it is not. Only the index of the
id counts. -/
def frame (c : CacheId) (id : PageId) : SessionM δ Frame := do
  let k ← cacheFile c
  let i := id.index
  if k.next ≤ i then refuse (.pageNotFound id c)
  match k.frames[i]? with
  | some f => if f.freed then refuse (.pageNotFound id c) else return f
  | none =>
    let f : Frame := { id, bytes := ← load k.path i, dirty := false }
    putFrame c i f
    return f

/-- A question to a page. -/
def view (c : CacheId) (id : PageId) (f : Page → Except Failure α) : SessionM δ α := do
  settle (f (← frame c id).bytes)

/-- A computation on a page. The page has to be written to its file afterwards,
whether or not it changed. -/
def edit (c : CacheId) (id : PageId) (m : PageM α) : SessionM δ α := do
  let f ← frame c id
  let (result, bytes) := m.runOn f.bytes
  putFrame c id.index { f with bytes, dirty := true }
  settle result

/-- A new page full of zeros. -/
def allocate (c : CacheId) (partition : UInt16) (space : Space) : SessionM δ PageId := do
  let k ← cacheFile c
  if CacheFile.indexLimit ≤ k.next then refuse (.outOfSpace c)
  let id := PageId.make partition space k.next
  let f : Frame := { id, bytes := Page.zeros (← pageSize), dirty := true }
  modify fun s => { s with store.caches := s.store.caches.modify c fun k =>
    { k with next := k.next + 1, frames := k.frames.insert k.next f } }
  return id

/-- Frees a page. It is filled with zeros and never handed out again. -/
def free (c : CacheId) (id : PageId) : SessionM δ Unit := do
  if id.index = 0 then refuse (.corrupted (.metaFreed c))
  let f ← frame c id
  putFrame c id.index { f with bytes := Page.zeros f.bytes.size, dirty := true, freed := true }

/-- Writes the changed pages among those at the given indexes to the file of a cache. -/
def writeBack (c : CacheId) (path : String) : List Nat → SessionM δ Unit
  | [] => pure ()
  | i :: rest => do
    if let some f := ((← get).store.caches[c]?).bind (·.frames[i]?) then
      if f.dirty then
        perform (Device.writeExact path (i * (← pageSize)) f.bytes)
        putFrame c i { f with dirty := false }
    writeBack c path rest

/-- Writes every changed page to its file, and then makes all files durable. -/
def flush : SessionM δ Unit := do
  let caches := (← get).store.caches.toList
  caches.forM fun (c, k) => writeBack c k.path k.frames.keys
  caches.forM fun (_, k) => perform (Device.sync k.path)

end Session

end PageCatalog
