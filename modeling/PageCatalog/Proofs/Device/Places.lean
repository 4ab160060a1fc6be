import Mathlib.Tactic
import PageCatalog.Device.FileTree

/-!
Places in a tree of folders and files.

A path leads to the place that its pieces name, if all on its way are folders. What stands in
the tree stays where it is when something is put where nothing stood, and then paths lead to
where they led before.

* `FileTree.placeOf`: the place that the pieces of a path name.
* `FileTree.Names`: a path that leads to a place; `lookup_file_iff`, `openFile_ok`, `makeDir_ok`.
* `FileTree.Extends`: all that stands stays where it is; `extends_put`, `extends_put_file`.
-/

namespace PageCatalog

namespace FileTree

variable {t t' t'' : FileTree} {path path' : String} {place place' : Place} {item : Item}
  {content : SparseFile}

/-! ### Places -/

/-- Where the pieces of a path start from. -/
def origin (path : String) : Place := if Path.isAbsolute path then ["/"] else []

/-- The pieces of a path that are no empty text. -/
def named (path : String) : List String := (Path.segments path).filter (· ≠ "")

/-- The place that a path leads to if all on its way are folders. -/
def placeOf (path : String) : Place := (named path).foldl move (origin path)

/-- A name that is no more than a name leads one step down. -/
lemma move_name {name : String} (hempty : name ≠ "") (hdot : name ≠ ".") (hdots : name ≠ "..")
    (place : Place) : move place name = place ++ [name] := by
  rw [move, if_neg (by simp [hempty, hdot]), if_neg hdots]

/-- Where pieces of a path can be followed, they lead where they say. -/
lemma enter_eq {pieces : List String} (h : t.enter place pieces = .ok place') :
    place' = pieces.foldl move place := by
  induction pieces generalizing place with
  | nil => exact (Except.ok.inj h).symm
  | cons piece rest ih =>
      rw [enter] at h
      split at h
      · cases h
      split at h
      · cases h
      · cases h
      · exact ih h

/-- How a path is taken apart. -/
lemma locate_eq (t : FileTree) (path : String) : t.locate path =
    if path = "" then .error .noEntry
    else if longestPath < path.utf8ByteSize then .error .nameTooLong
    else match (named path).getLast? with
      | none => .ok ⟨origin path, none, true⟩
      | some last => match t.enter (origin path) (named path).dropLast with
        | .error e => .error e
        | .ok folder => .ok ⟨folder, if last = "." ∨ last = ".." then none else some last,
            path.endsWith "/"⟩ := by
  unfold locate
  by_cases hempty : path = ""
  · rw [if_pos hempty, if_pos hempty]
    rfl
  rw [if_neg hempty, if_neg hempty]
  by_cases hlong : longestPath < path.utf8ByteSize
  · simp only [if_pos hlong]
    rfl
  simp only [if_neg hlong]
  change (match (named path).getLast? with
    | none => (.ok ⟨origin path, none, true⟩ : Except SystemError Target)
    | some last => do
        let folder ← t.enter (origin path) (named path).dropLast
        if last = "." ∨ last = ".." then return ⟨folder, none, path.endsWith "/"⟩
        return ⟨folder, some last, path.endsWith "/"⟩) = _
  cases (named path).getLast? with
  | none => rfl
  | some last =>
      cases t.enter (origin path) (named path).dropLast with
      | error e => rfl
      | ok folder =>
          by_cases hdots : last = "." ∨ last = ".."
          · simp only [if_pos hdots]
            rfl
          · simp only [if_neg hdots]
            rfl

/-- An ordinary name at the end of a path stands behind the place of its folder. -/
lemma placeOf_of_locate {folder : Place} {name : String} {slash : Bool}
    (h : t.locate path = .ok ⟨folder, some name, slash⟩) : folder ++ [name] = placeOf path := by
  rw [locate_eq] at h
  split at h
  · cases h
  split at h
  · cases h
  split at h
  · cases h
  rename_i last hlast
  split at h
  · cases h
  rename_i folder' henter
  simp only [Except.ok.injEq, Target.mk.injEq] at h
  obtain ⟨rfl, hname, -⟩ := h
  split at hname
  · cases hname
  rename_i hdots
  obtain rfl := Option.some.inj hname
  rw [not_or] at hdots
  have hnamed := List.dropLast_append_getLast? last hlast
  have hne : last ≠ "" := by
    have hmem : last ∈ named path := hnamed ▸ List.mem_append_right _ (List.mem_singleton_self _)
    simpa using (List.mem_filter.mp hmem).2
  rw [placeOf, ← move_name hne hdots.1 hdots.2, enter_eq henter]
  conv_rhs => rw [← hnamed, List.foldl_append]
  rfl

/-- A path leads to a place that an ordinary file may have. -/
def Names (t : FileTree) (path : String) : Prop :=
  ∃ folder name, t.locate path = .ok ⟨folder, some name, false⟩ ∧ name.utf8ByteSize ≤ longestName

/-- What is no folder stands inside the tree. -/
lemma item?_of_ne_folder (h : t.item? place ≠ some .folder) : t.item? place = t.items[key place]? := by
  rw [item?]
  split
  · rename_i hout
    rw [item?, if_pos hout] at h
    exact absurd rfl h
  · rfl

/-- What stands where after something was put at a place. -/
lemma item?_put (t : FileTree) (place place' : Place) (item : Item) :
    (t.put place item).item? place' = if isOutside place' then some .folder
      else if key place = key place' then some item else t.item? place' := by
  rw [item?]
  split
  · rfl
  rename_i hout
  rw [put, Std.TreeMap.getElem?_insert]
  simp only [Std.LawfulEqCmp.compare_eq_iff_eq]
  rw [item?, if_neg hout]

/-- What is put where no folder stood is found there. -/
lemma item?_put_self (h : t.item? place ≠ some .folder) (item : Item) :
    (t.put place item).item? place = some item := by
  rw [item?_put, if_neg, if_pos rfl]
  intro hout
  rw [item?, if_pos hout] at h
  exact h rfl

/-- Elsewhere it changes nothing. -/
lemma item?_put_other (h : key place ≠ key place') (item : Item) :
    (t.put place item).item? place' = t.item? place' := by
  rw [item?_put, if_neg h, item?]
  split <;> rfl

section Located

variable {folder : Place} {name : String} {slash : Bool}
  (hlocate : t.locate path = .ok ⟨folder, some name, slash⟩)
include hlocate

/-- What a path leads to, in terms of its place. -/
lemma lookup_of_locate : t.lookup path =
    if longestName < name.utf8ByteSize then .error .nameTooLong
    else match t.item? (placeOf path) with
      | none => .error .noEntry
      | some .folder => .ok .folder
      | some (.file content) => if slash then .error .notFolder else .ok (.file content) := by
  rw [← placeOf_of_locate hlocate]
  unfold lookup
  rw [hlocate]
  change (t.member folder name >>= _) = _
  rw [member]
  split
  · rfl
  · rcases t.item? (folder ++ [name]) with _ | _ | content
    · rfl
    · rfl
    · cases slash <;> rfl

/-- A folder is made at the place of a path. -/
lemma makeDir_of_locate : t.makeDir path =
    if longestName < name.utf8ByteSize then .error .nameTooLong
    else match t.item? (placeOf path) with
      | some _ => .error .entryExists
      | none => .ok (t.put (placeOf path) .folder) := by
  rw [← placeOf_of_locate hlocate]
  unfold makeDir
  rw [hlocate]
  change (t.member folder name >>= _) = _
  rw [member]
  split
  · rfl
  · rcases t.item? (folder ++ [name]) with _ | _
    · rfl
    · rfl

omit hlocate in
/-- A file is opened at the place of a path. -/
lemma openFile_of_locate (hlocate : t.locate path = .ok ⟨folder, some name, false⟩) : t.openFile path =
    if longestName < name.utf8ByteSize then .error .nameTooLong
    else match t.item? (placeOf path) with
      | some .folder => .error .isFolder
      | some (.file _) => .ok t
      | none => .ok (t.put (placeOf path) (.file {})) := by
  rw [← placeOf_of_locate hlocate]
  unfold openFile
  rw [hlocate]
  change (t.member folder name >>= _) = _
  rw [member]
  split
  · rfl
  · rcases t.item? (folder ++ [name]) with _ | _ | content
    · rfl
    · rfl
    · rfl

end Located

/-- A file is found where its path leads. -/
lemma lookup_file_iff : t.lookup path = .ok (.file content) ↔
    t.Names path ∧ t.item? (placeOf path) = some (.file content) := by
  constructor
  · intro h
    rcases hlocate : t.locate path with e | ⟨folder, _ | name, slash⟩
    · rw [lookup, hlocate] at h
      cases h
    · rw [lookup, hlocate] at h
      cases h
    rw [lookup_of_locate hlocate] at h
    split at h
    · cases h
    rename_i hshort
    split at h
    · cases h
    · cases h
    rename_i content' hitem
    cases slash with
    | true => cases h
    | false =>
        cases h
        exact ⟨⟨folder, name, hlocate, Nat.not_lt.mp hshort⟩, hitem⟩
  · rintro ⟨⟨folder, name, hlocate, hshort⟩, hitem⟩
    rw [lookup_of_locate hlocate, if_neg (Nat.not_lt.mpr hshort), hitem]
    rfl

/-- A file is opened where there is one, or is made where there is nothing. -/
lemma openFile_ok (h : t.openFile path = .ok t') : t.Names path ∧
    ((∃ content, t.item? (placeOf path) = some (.file content) ∧ t' = t) ∨
      t.item? (placeOf path) = none ∧ t' = t.put (placeOf path) (.file {})) := by
  rcases hlocate : t.locate path with e | ⟨folder, _ | name, slash⟩
  · rw [openFile, hlocate] at h
    cases h
  · rw [openFile, hlocate] at h
    cases h
  cases slash with
  | true =>
      rw [openFile, hlocate] at h
      cases h
  | false =>
      rw [openFile_of_locate hlocate] at h
      split at h
      · cases h
      rename_i hshort
      refine ⟨⟨folder, name, hlocate, Nat.not_lt.mp hshort⟩, ?_⟩
      split at h
      · cases h
      · rename_i content hitem
        exact .inl ⟨content, hitem, (Except.ok.inj h).symm⟩
      · rename_i hitem
        exact .inr ⟨hitem, (Except.ok.inj h).symm⟩

/-- The bytes of a file that a path leads to are set at its place. -/
lemma setContent_of_names (h : t.Names path) (content : SparseFile) :
    t.setContent path content = t.put (placeOf path) (.file content) := by
  obtain ⟨folder, name, hlocate, -⟩ := h
  rw [setContent, hlocate, ← placeOf_of_locate hlocate]

/-- A folder is made where there is nothing. -/
lemma makeDir_ok (h : t.makeDir path = .ok t') :
    t.item? (placeOf path) = none ∧ t' = t.put (placeOf path) .folder := by
  rcases hlocate : t.locate path with e | ⟨folder, _ | name, slash⟩
  · rw [makeDir, hlocate] at h
    cases h
  · rw [makeDir, hlocate] at h
    cases h
  rw [makeDir_of_locate hlocate] at h
  split at h
  · cases h
  split at h
  · cases h
  · rename_i hitem
    exact ⟨hitem, (Except.ok.inj h).symm⟩

/-! ### Trees that grow -/

/-- Folders and files stay where they are. -/
structure Extends (t t' : FileTree) : Prop where
  folder : ∀ {place}, t.item? place = some .folder → t'.item? place = some .folder
  file : ∀ {place content}, t.item? place = some (.file content) →
    ∃ content', t'.item? place = some (.file content')

/-- Nothing was put anywhere. -/
lemma Extends.refl (t : FileTree) : t.Extends t := ⟨fun h => h, fun h => ⟨_, h⟩⟩

/-- One thing put after another. -/
lemma Extends.trans (h : t.Extends t') (h' : t'.Extends t'') : t.Extends t'' :=
  ⟨fun hitem => h'.folder (h.folder hitem), fun hitem => (h.file hitem).elim fun _ hitem => h'.file hitem⟩

/-- What is put where nothing stood disturbs nothing. -/
lemma extends_put (h : t.item? place = none) (item : Item) : t.Extends (t.put place item) := by
  have hother : ∀ {place' item'}, t.item? place' = some item' → (t.put place item).item? place' = some item' := by
    intro place' item' hitem
    rw [item?_put]
    split
    · rename_i hout
      rwa [item?, if_pos hout] at hitem
    split
    · -- the two places have one key, and nothing stands there
      rename_i hout hkey
      rw [item?_of_ne_folder (by rw [h]; exact fun h => by cases h), hkey] at h
      rw [item?, if_neg hout, h] at hitem
      cases hitem
    · exact hitem
  exact ⟨hother, fun hitem => ⟨_, hother hitem⟩⟩

/-- A file may get another content. -/
lemma extends_put_file (h : t.item? place = some (.file content)) (content' : SparseFile) :
    t.Extends (t.put place (.file content')) := by
  have hhere : t.item? place = t.items[key place]? :=
    item?_of_ne_folder (by rw [h]; exact fun h => by cases h)
  refine ⟨fun {place'} hitem => ?_, fun {place' content''} hitem => ?_⟩
  · rw [item?_put]
    split
    · rfl
    rename_i hout
    rw [if_neg fun hkey => ?_]
    · exact hitem
    rw [item?, if_neg hout, ← hkey, ← hhere, h] at hitem
    cases hitem
  · rw [item?_put, if_neg]
    · split
      · exact ⟨_, rfl⟩
      · exact ⟨_, hitem⟩
    · intro hout
      rw [item?, if_pos hout] at hitem
      cases hitem

/-- Folders that can be followed still can. -/
lemma Extends.enter (h : t.Extends t') {pieces : List String}
    (henter : t.enter place pieces = .ok place') : t'.enter place pieces = .ok place' := by
  induction pieces generalizing place with
  | nil => exact henter
  | cons piece rest ih =>
      rw [FileTree.enter] at henter ⊢
      split at henter
      · cases henter
      rename_i hshort
      rw [if_neg hshort]
      split at henter
      · cases henter
      · cases henter
      · rename_i hfolder
        rw [h.folder hfolder]
        exact ih henter

/-- What a path leads to stays there. -/
lemma Extends.locate (h : t.Extends t') {target : Target} (hlocate : t.locate path = .ok target) :
    t'.locate path = .ok target := by
  rw [locate_eq] at hlocate ⊢
  split at hlocate
  · cases hlocate
  rename_i hempty
  rw [if_neg hempty]
  split at hlocate
  · cases hlocate
  rename_i hshort
  rw [if_neg hshort]
  split at hlocate
  · exact hlocate
  split at hlocate
  · cases hlocate
  rename_i henter
  rw [h.enter henter]
  exact hlocate

/-- A path that leads to a place still does. -/
lemma Extends.names (h : t.Extends t') (hpath : t.Names path) : t'.Names path := by
  obtain ⟨folder, name, hlocate, hshort⟩ := hpath
  exact ⟨folder, name, h.locate hlocate, hshort⟩

/-- A file that is found is still found. -/
lemma Extends.lookup_file (h : t.Extends t') (hpath : t.lookup path = .ok (.file content)) :
    ∃ content', t'.lookup path = .ok (.file content') := by
  obtain ⟨hnames, hitem⟩ := lookup_file_iff.mp hpath
  obtain ⟨content', hitem'⟩ := h.file hitem
  exact ⟨content', lookup_file_iff.mpr ⟨h.names hnames, hitem'⟩⟩

/-- A folder is where a path is found to lead to one. -/
lemma isFolder_iff : t.isFolder path ↔ t.lookup path = .ok .folder := by
  rw [isFolder]
  split
  · rename_i h
    simp [h]
  · rename_i h
    simpa using h

/-- A folder that is found is still found. -/
lemma Extends.isFolder (h : t.Extends t') (hpath : t.isFolder path) : t'.isFolder path := by
  rw [isFolder_iff] at hpath ⊢
  rcases hlocate : t.locate path with e | ⟨folder, _ | name, slash⟩
  · rw [lookup, hlocate] at hpath
    cases hpath
  · rw [lookup, h.locate hlocate]
    rfl
  rw [lookup_of_locate hlocate] at hpath
  rw [lookup_of_locate (h.locate hlocate)]
  split at hpath
  · cases hpath
  rename_i hshort
  rw [if_neg hshort]
  split at hpath
  · cases hpath
  · rename_i hitem
    rw [h.folder hitem]
  · split at hpath <;> cases hpath

end FileTree

end PageCatalog
