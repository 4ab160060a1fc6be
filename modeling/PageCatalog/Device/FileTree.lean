import PageCatalog.Device
import PageCatalog.Device.Path
import PageCatalog.Device.Sparse

/-!
A tree of folders and files, with the answers of a hierarchical file system.

A path is followed piece by piece: every piece but the last must name a folder
that is there, `.` stays where it is and `..` goes back. Above the folder where
relative paths start, only `..` is known.

* `FileTree.Item`, `FileTree`: what stands where.
* `FileTree.locate`: the place of a path, with what stands there.
* `FileTree.makeDir`, `FileTree.openFile`, `FileTree.lengthAt`: single calls.
* `FileTree.makeDirs`: a folder with all folders around it.
-/

namespace PageCatalog

namespace FileTree

/-- What stands at a place. -/
inductive Item where
  | folder
  | file (content : SparseFile)

/-- A place, as the names that lead there. -/
abbrev Place := List String

/-- Longest name of a single piece, in bytes. -/
def longestName : Nat := 255

/-- Longest path, in bytes. -/
def longestPath : Nat := 4095

/-- No file is longer, in bytes. -/
def longestFile : Nat := 0x100000000000 - 4096

/-- What a folder measures. -/
def folderLength : Nat := 4096

end FileTree

/-- Folders and files, each under the names that lead to it. -/
structure FileTree where
  items : Std.TreeMap String FileTree.Item := .empty

namespace FileTree

/-- The root, and the folders that enclose the one where relative paths start. -/
def isOutside (place : Place) : Bool :=
  place = ["/"] ∨ place.all (· = "..")

/-- The key of a place. -/
def key (place : Place) : String := "/".intercalate place

/-- What stands at a place. -/
def item? (t : FileTree) (place : Place) : Option Item :=
  if isOutside place then some .folder else t.items[key place]?

/-- The tree with something put at a place. -/
def put (t : FileTree) (place : Place) (item : Item) : FileTree :=
  ⟨t.items.insert (key place) item⟩

/-- The place around another one. -/
def around (place : Place) : Place :=
  if place = ["/"] then place
  else if place.all (· = "..") then place ++ [".."]
  else place.dropLast

/-- The place reached from a folder by one piece of a path. -/
def move (place : Place) (piece : String) : Place :=
  if piece = "" ∨ piece = "." then place
  else if piece = ".." then around place
  else place ++ [piece]

/-- Follows pieces that must all lead to folders. -/
def enter (t : FileTree) : Place → List String → Except SystemError Place
  | place, [] => .ok place
  | place, piece :: rest =>
    if longestName < piece.utf8ByteSize then .error .nameTooLong
    else match t.item? (move place piece) with
      | none => .error .noEntry
      | some (.file _) => .error .notFolder
      | some .folder => enter t (move place piece) rest

/-- A path taken apart: the folder that holds its last piece, that piece, if it is
an ordinary name, and whether a slash follows it. -/
structure Target where
  folder : Place
  name? : Option String
  slash : Bool

/-- The place of a path whose last piece need not be there. -/
def locate (t : FileTree) (path : String) : Except SystemError Target := do
  if path = "" then throw .noEntry
  if longestPath < path.utf8ByteSize then throw .nameTooLong
  let start := if Path.isAbsolute path then ["/"] else []
  let named := (Path.segments path).filter (· ≠ "")
  match named.getLast? with
  | none => return ⟨start, none, true⟩
  | some last =>
    let folder ← t.enter start named.dropLast
    if last = "." ∨ last = ".." then return ⟨folder, none, path.endsWith "/"⟩
    return ⟨folder, some last, path.endsWith "/"⟩

/-- What stands in a folder under an ordinary name. -/
def member (t : FileTree) (folder : Place) (name : String) : Except SystemError (Option Item) :=
  if longestName < name.utf8ByteSize then .error .nameTooLong
  else .ok (t.item? (folder ++ [name]))

/-- What a path leads to. -/
def lookup (t : FileTree) (path : String) : Except SystemError Item := do
  let target ← t.locate path
  match target.name? with
  | none => return .folder
  | some name =>
    match ← t.member target.folder name with
    | none => throw .noEntry
    | some .folder => return .folder
    | some (.file content) => if target.slash then throw .notFolder else return .file content

/-- Makes one folder. -/
def makeDir (t : FileTree) (path : String) : Except SystemError FileTree := do
  let target ← t.locate path
  match target.name? with
  | none => throw .entryExists
  | some name =>
    match ← t.member target.folder name with
    | some _ => throw .entryExists
    | none => return t.put (target.folder ++ [name]) .folder

/-- Opens a file for reading and writing, creating it if it is missing. -/
def openFile (t : FileTree) (path : String) : Except SystemError FileTree := do
  let target ← t.locate path
  match target.name?, target.slash with
  | none, _ => throw .isFolder
  | some _, true => throw .isFolder
  | some name, false =>
    match ← t.member target.folder name with
    | some .folder => throw .isFolder
    | some (.file _) => return t
    | none => return t.put (target.folder ++ [name]) (.file {})

/-- Whether a path leads to a folder. -/
def isFolder (t : FileTree) (path : String) : Bool :=
  match t.lookup path with
  | .ok .folder => true
  | _ => false

/-- The length of what a path leads to. -/
def lengthAt (t : FileTree) (path : String) : Except SystemError Nat :=
  (t.lookup path).map fun
    | .folder => folderLength
    | .file content => content.size

/-- The content of the file at a path, empty if there is none. -/
def contentAt (t : FileTree) (path : String) : SparseFile :=
  match t.lookup path with
  | .ok (.file content) => content
  | _ => {}

/-- The tree with other content in the file at a path. -/
def setContent (t : FileTree) (path : String) (content : SparseFile) : FileTree :=
  match t.locate path with
  | .ok ⟨folder, some name, _⟩ => t.put (folder ++ [name]) (.file content)
  | _ => t

/-- Writes bytes to the file at a path, as many as a file can hold from `pos` on. A
write of nothing succeeds anywhere. -/
def writeFile (t : FileTree) (path : String) (pos : Nat) (bytes : ByteArray) :
    Except SystemError (Nat × FileTree) :=
  if bytes.size = 0 then .ok (0, t)
  else if longestFile ≤ pos then .error .fileTooLarge
  else
    let taken := bytes.extract 0 (longestFile - pos)
    .ok (taken.size, t.setContent path ((t.contentAt path).write pos taken))

/-- Makes a folder unless it is there already. -/
def ensureDir (t : FileTree) (path : String) : Except SystemError FileTree :=
  match t.makeDir path with
  | .ok t' => .ok t'
  | .error e => if t.isFolder path then .ok t else .error e

/-- Makes a folder, and before it the folders around it if they are missing.
`depth` bounds the number of folders above. -/
def makeDirs : (depth : Nat) → FileTree → String → Except SystemError Unit × FileTree
  | 0, t, _ => (.ok (), t)
  | depth + 1, t, path =>
    if path = "" then (.ok (), t)
    else match t.makeDir path, Path.parent? path with
      | .error .noEntry, some parent =>
        match makeDirs depth t parent with
        | (.error e, t') => (.error e, t')
        | (.ok (), t') =>
          match t'.ensureDir path with
          | .ok made => (.ok (), made)
          | .error e => (.error e, t')
      | _, _ =>
        match t.ensureDir path with
        | .ok made => (.ok (), made)
        | .error e => (.error e, t)

/-- A call of the file system on a path as a call of a device. It is not made at all
if the path holds the character that would end it. -/
def call {α : Type} (path : String)
    (f : FileTree → String → Except SystemError α × FileTree) : DeviceM FileTree α := fun t =>
  if '\x00' ∈ path.toList then (.error .nulInPath, t)
  else match f t path with
    | (.ok a, t') => (.ok a, t')
    | (.error e, t') => (.error (.system e), t')

/-- A look at the tree. -/
def look {α : Type} (f : FileTree → String → Except SystemError α) (t : FileTree)
    (path : String) : Except SystemError α × FileTree :=
  (f t path, t)

/-- A change of the tree; a change that fails leaves it as it was. -/
def change (f : FileTree → String → Except SystemError FileTree) (t : FileTree)
    (path : String) : Except SystemError Unit × FileTree :=
  match f t path with
  | .ok t' => (.ok (), t')
  | .error e => (.error e, t)

instance : Device FileTree where
  makeDirs path := call path fun t path => makeDirs ((Path.pieces path).length + 1) t path
  length path := call path (look lengthAt)
  attach path := call path (change openFile)
  size path := call path (look lengthAt)
  readAt path pos len := fun t => (.ok ((t.contentAt path).read pos len), t)
  writeAt path pos bytes := fun t =>
    match t.writeFile path pos bytes with
    | .ok (n, t') => (.ok n, t')
    | .error e => (.error (.system e), t)
  sync _ := pure ()
  stalls _ := 0

end FileTree

end PageCatalog
