import PageCatalog.Device
import PageCatalog.Device.Path
import Std.Data.TreeMap

/-!
A disk in memory.

Files are growing byte arrays under canonical paths. A write behind the end of
a file fills the gap with zeros; a read behind the end finds nothing; folders
always exist.

* `MemoryDisk`, `MemoryDisk.content?`: the bytes under a path.
* `MemoryDisk.overwrite`: what a write leaves in a file.
-/

namespace PageCatalog

/-- A disk that holds its files in memory. -/
structure MemoryDisk where
  files : Std.TreeMap String ByteArray := .empty

namespace MemoryDisk

/-- The bytes of the file at a path, if there is one. -/
def content? (disk : MemoryDisk) (path : String) : Option ByteArray :=
  disk.files[Path.canonical path]?

/-- A file with `bytes` written at `pos`, grown by zeros as far as needed. A
write of nothing does not make a file longer. -/
def overwrite (file : ByteArray) (pos : Nat) (bytes : ByteArray) : ByteArray :=
  if bytes.size = 0 then file
  else
    let grown :=
      if pos + bytes.size ≤ file.size then file
      else file ++ ⟨Array.replicate (pos + bytes.size - file.size) 0⟩
    bytes.copySlice 0 grown pos bytes.size

/-- The bytes of a file from `pos` on, at most `len`. -/
def excerpt (file : ByteArray) (pos len : Nat) : ByteArray :=
  file.extract pos (min (pos + len) file.size)

/-- The refusal to tell the length of a file that was never attached. -/
def missing : IoError := .stated .notFound "no such sim file"

instance : Device MemoryDisk where
  makeDirs _ := pure ()
  length path := fun disk =>
    match disk.content? path with
    | some file => (.ok file.size, disk)
    | none => (.error missing, disk)
  attach path := fun disk =>
    (.ok (), ⟨disk.files.alter (Path.canonical path) fun file => some (file.getD .empty)⟩)
  size path := fun disk => (.ok ((disk.content? path).getD .empty).size, disk)
  readAt path pos len := fun disk =>
    (.ok (excerpt ((disk.content? path).getD .empty) pos len), disk)
  writeAt path pos bytes := fun disk =>
    (.ok bytes.size,
      ⟨disk.files.alter (Path.canonical path) fun file =>
        some (overwrite (file.getD .empty) pos bytes)⟩)
  sync _ := pure ()
  stalls _ := 0

end MemoryDisk

end PageCatalog
