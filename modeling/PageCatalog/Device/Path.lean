/-!
Paths as text.

* `Path.segments`: all that stands between the slashes, empty texts too.
* `Path.pieces`: the segments that say something.
* `Path.canonical`: one spelling for all paths that differ in repeated or final
  slashes and in pieces `.` only; a leading `.` stays.
* `Path.join`, `Path.parent?`.
-/

namespace PageCatalog.Path

/-- A path that starts at the root. -/
def isAbsolute (path : String) : Bool := path.startsWith "/"

/-- What stands between the slashes of a path, in order: one text more than there
are slashes. -/
def segments (path : String) : List String :=
  (path.toList.foldr (fun c texts =>
    if c = '/' then [] :: texts else (c :: texts.headD []) :: texts.tail) [[]]).map .ofList

/-- The segments that say something; a leading `.` of a relative path says where it
starts. -/
def pieces (path : String) : List String :=
  match segments path with
  | "." :: rest => "." :: rest.filter fun s => s ≠ "" ∧ s ≠ "."
  | all => all.filter fun s => s ≠ "" ∧ s ≠ "."

/-- The text of a path with given pieces. -/
def ofPieces (absolute : Bool) (names : List String) : String :=
  (if absolute then "/" else "") ++ "/".intercalate names

/-- The plain spelling of a path. -/
def canonical (path : String) : String :=
  ofPieces (isAbsolute path) (pieces path)

/-- The path of `name` inside `folder`. -/
def join (folder name : String) : String :=
  if folder = "" ∨ folder.endsWith "/" then folder ++ name else folder ++ "/" ++ name

/-- The path of the folder around a path; the root and the empty path have none. -/
def parent? (path : String) : Option String :=
  match pieces path with
  | [] => none
  | names => some (ofPieces (isAbsolute path) names.dropLast)

end PageCatalog.Path
