import PageCatalog.CommandLine
import PageCatalog.Device.FileTree

/-!
The program. It reads the one cache file that a command concerns into a tree of
files, carries the command out there, and writes back what changed.
-/

namespace PageCatalog.Main

/-- The folders on the way to a path, the outermost first, and the path itself. -/
def stations (path : String) : List String :=
  let names := Path.pieces path
  (List.range names.length).map fun i => Path.ofPieces (Path.isAbsolute path) (names.take (i + 1))

/-- Enters what stands at a path into a tree of files. -/
def observe (t : FileTree) (path : String) : IO FileTree := do
  try
    let real ← IO.FS.realPath path
    if ← real.isDir then
      return (t.makeDir path).toOption.getD t
    else
      let content ← IO.FS.readBinFile real
      match t.openFile path with
      | .ok opened => return opened.setContent path (.ofBytes content)
      | .error _ => return t
  catch _ => return t

/-- Writes back a folder and a file that a run made or changed. -/
def writeBack (folder path : String) (before after : FileTree) : IO Unit := do
  if after.isFolder folder ∧ ¬ before.isFolder folder then IO.FS.createDirAll folder
  match after.lookup path with
  | .ok (.file file) =>
    let content := file.toBytes
    let kept := match before.lookup path with
      | .ok (.file old) => old.toBytes.data == content.data
      | _ => false
    unless kept do IO.FS.writeBinFile path content
  | _ => pure ()

/-- The path of the cache file that the arguments name, with its folder. -/
def concerned? : List String → Option (String × String)
  | folder :: cache :: _ :: _ =>
    match CommandLine.cacheId cache with
    | .ok c => some (folder, PageStore.pathOf { folder, options := {} } c)
    | .error _ => none
  | _ => none

end PageCatalog.Main

def main (args : List String) : IO UInt32 := do
  let concerned := PageCatalog.Main.concerned? args
  let mut files : PageCatalog.FileTree := {}
  if let some (_, path) := concerned then
    for station in PageCatalog.Main.stations path do
      files ← PageCatalog.Main.observe files station
  let (outcome, after) := PageCatalog.CommandLine.run args files
  if let some (folder, path) := concerned then
    PageCatalog.Main.writeBack folder path files after
  IO.print outcome.out
  IO.eprint outcome.err
  return outcome.code
