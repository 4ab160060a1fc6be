import Mathlib.Tactic
import PageCatalog.Proofs.Device.Path
import PageCatalog.Proofs.Device.Places
import PageCatalog.Proofs.Device.Service
import PageCatalog.Proofs.Device.Sparse

/-!
A tree of folders and files keeps to its files.

Folders and files are only ever put where nothing stood, so a call changes no file but the one
that it writes to. A folder that was made is served from then on, with the files in it that can be
opened, as long as none of them grows too long.

* `FileTree.Keeps`: no file has other bytes; `makeDirs_keeps`, `openFile_keeps`.
* `FileTree.account`: the files of a tree.
* `FileTree.Ready`, `FileTree.service`: a tree that serves a folder; `ready_of_made`.
* `FileTree.apart_pathOf`: the caches of a store have files of their own.
-/

namespace PageCatalog

namespace FileTree

variable {t t' t'' : FileTree} {path path' : String} {place : Place} {item : Item} {content : SparseFile}

/-! ### The files -/

/-- The bytes of what stands at a place. -/
def bytesAt (t : FileTree) (place : Place) : Bytes :=
  match t.item? place with
  | some (.file content) => content.content
  | _ => []

/-- The files keep their blocks in order. -/
def Regular (t : FileTree) : Prop :=
  ∀ ⦃k : String⦄ ⦃content : SparseFile⦄, t.items[k]? = some (.file content) → content.Regular

/-- The blocks of a file at a place are in order. -/
lemma Regular.of_item (h : t.Regular) (hitem : t.item? place = some (.file content)) :
    content.Regular := by
  rw [item?] at hitem
  split at hitem
  · cases hitem
  · exact h hitem

/-- Something is put at a place; if that is a file, its blocks are in order. -/
lemma Regular.put (h : t.Regular) (place : Place) (hitem : ∀ content, item = .file content → content.Regular) :
    (t.put place item).Regular := by
  intro k content hk
  rw [FileTree.put, Std.TreeMap.getElem?_insert] at hk
  split at hk
  · exact hitem content (Option.some.inj hk)
  · exact h hk

/-- There is no file at first. -/
lemma regular_empty : ({} : FileTree).Regular := fun k content h => by
  rw [show ({} : FileTree).items = ∅ from rfl, Std.TreeMap.getElem?_emptyc] at h
  cases h

/-- What stands stays where it is, and all files have the bytes that they had. -/
structure Keeps (t t' : FileTree) : Prop extends Extends t t' where
  bytes : ∀ place, t'.bytesAt place = t.bytesAt place
  regular : t.Regular → t'.Regular

/-- Nothing has changed. -/
lemma Keeps.refl (t : FileTree) : t.Keeps t := ⟨.refl t, fun _ => rfl, fun h => h⟩

/-- What two calls keep, both of them together do. -/
lemma Keeps.trans (h : t.Keeps t') (h' : t'.Keeps t'') : t.Keeps t'' :=
  ⟨h.toExtends.trans h'.toExtends, fun place => (h'.bytes place).trans (h.bytes place),
    fun hregular => h'.regular (h.regular hregular)⟩

/-- Something without bytes is put where nothing stood. -/
lemma keeps_put (h : t.item? place = none) (hitem : item = .folder ∨ item = .file {}) :
    t.Keeps (t.put place item) := by
  refine ⟨extends_put h item, fun place' => ?_, fun hregular => hregular.put place fun content hfile => ?_⟩
  · rw [bytesAt, item?_put, bytesAt]
    -- Outside the tree nothing is put. Inside it, another place keeps what stands there, and at
    -- the place itself there were no bytes before and are none now.
    by_cases hout : isOutside place'
    · rw [if_pos hout, item?, if_pos hout]
    rw [if_neg hout]
    by_cases hkey : key place = key place'
    · rw [item?_of_ne_folder (by rw [h]; exact fun h => by cases h), hkey] at h
      rw [if_pos hkey, item?, if_neg hout, h]
      obtain rfl | rfl := hitem <;> rfl
    · rw [if_neg hkey]
  · rw [hfile] at hitem
    obtain hitem | hitem := hitem
    · cases hitem
    · cases hitem
      exact SparseFile.regular_empty

/-- Making a folder keeps the files. -/
lemma makeDir_keeps (h : t.makeDir path = .ok t') : t.Keeps t' := by
  obtain ⟨hitem, rfl⟩ := makeDir_ok h
  exact keeps_put hitem (.inl rfl)

/-- Making a folder that may be there already keeps the files. -/
lemma ensureDir_keeps (h : t.ensureDir path = .ok t') : t.Keeps t' := by
  rw [ensureDir] at h
  split at h
  · rename_i hmade
    cases h
    exact makeDir_keeps hmade
  · split at h
    · cases h
      exact .refl t
    · cases h

/-- Opening a file keeps the files, since a new one is empty. -/
lemma openFile_keeps (h : t.openFile path = .ok t') : t.Keeps t' := by
  obtain ⟨-, ⟨content, -, rfl⟩ | ⟨hitem, rfl⟩⟩ := openFile_ok h
  · exact .refl _
  · exact keeps_put hitem (.inr rfl)

/-- Folders are made in front of a folder, whether or not it can be made itself. -/
lemma makeDirs_keeps (depth : ℕ) (t : FileTree) (path : String) : t.Keeps (makeDirs depth t path).2 := by
  -- By induction on how many folders may be missing. Those made in front of a refused one stay,
  -- which is why the refused case needs the hypothesis too.
  induction depth generalizing t path with
  | zero => exact .refl t
  | succ depth ih =>
      rw [makeDirs]
      split
      · exact .refl t
      split
      · rename_i parent _ _
        have hparent := ih t parent
        split
        · rename_i hrun
          rwa [hrun] at hparent
        · rename_i hrun
          rw [hrun] at hparent
          split
          · rename_i hmade
            exact hparent.trans (ensureDir_keeps hmade)
          · exact hparent
      · split
        · rename_i hmade
          exact ensureDir_keeps hmade
        · exact .refl t

/-- A folder that was made is there. -/
lemma makeDir_isFolder (h : t.makeDir path = .ok t') : t'.isFolder path := by
  obtain ⟨hitem, rfl⟩ := makeDir_ok h
  -- It stands at the place that its path leads to, and the path still leads there with the folder
  -- put in.
  rcases hlocate : t.locate path with e | ⟨folder, _ | name, slash⟩
  · rw [makeDir, hlocate] at h
    cases h
  · rw [makeDir, hlocate] at h
    cases h
  rw [makeDir_of_locate hlocate] at h
  split at h
  · cases h
  rename_i hshort
  rw [isFolder_iff, lookup_of_locate ((extends_put hitem .folder).locate hlocate), if_neg hshort,
    item?_put_self (by rw [hitem]; exact fun h => by cases h)]

/-- A folder that is there cannot be made. -/
lemma makeDir_of_isFolder (h : t.isFolder path) : t.makeDir path = .error .entryExists := by
  rw [isFolder_iff] at h
  rcases hlocate : t.locate path with e | ⟨folder, _ | name, slash⟩
  · rw [lookup, hlocate] at h
    cases h
  · rw [makeDir, hlocate]
    rfl
  rw [lookup_of_locate hlocate] at h
  rw [makeDir_of_locate hlocate]
  split at h
  · cases h
  rename_i hshort
  rw [if_neg hshort]
  split at h
  · cases h
  · rename_i hitem
    rw [hitem]
  · split at h <;> cases h

/-- A folder is there, be it made or not. -/
lemma ensureDir_isFolder (h : t.ensureDir path = .ok t') : t'.isFolder path := by
  rw [ensureDir] at h
  split at h
  · rename_i hmade
    cases h
    exact makeDir_isFolder hmade
  · split at h
    · rename_i hfolder
      cases h
      exact hfolder
    · cases h

/-- A folder that is there is left as it is. -/
lemma ensureDir_of_isFolder (h : t.isFolder path) : t.ensureDir path = .ok t := by
  rw [ensureDir, makeDir_of_isFolder h]
  simp only [if_pos h]

/-- A path of folders that was made ends in a folder, or is the empty one. -/
lemma makeDirs_isFolder {depth : ℕ} (h : makeDirs (depth + 1) t path = (.ok (), t')) :
    path = "" ∨ t'.isFolder path := by
  rw [makeDirs] at h
  split at h
  · exact .inl ‹_›
  refine .inr ?_
  split at h
  · split at h
    · cases h
    · split at h
      · rename_i hmade
        cases h
        exact ensureDir_isFolder hmade
      · cases h
  · split at h
    · rename_i hmade
      cases h
      exact ensureDir_isFolder hmade
    · cases h

/-- Nothing is made in place of a folder that is there. -/
lemma makeDirs_of_isFolder (h : t.isFolder path) (depth : ℕ) :
    makeDirs (depth + 1) t path = (.ok (), t) := by
  rw [makeDirs]
  split
  · rfl
  rw [makeDir_of_isFolder h]
  simp only [ensureDir_of_isFolder h]

/-! ### Calls -/

variable {α : Type} {f : FileTree → String → Except SystemError α × FileTree}

/-- A call is not made on a path that holds the character which would end it. -/
lemma call_nul (h : '\x00' ∈ path.toList) (t : FileTree) : call path f t = (.error .nulInPath, t) := by
  rw [call, if_pos h]

/-- A call on a path without that character is answered as the tree answers it. -/
lemma call_ok {a : α} (h : '\x00' ∉ path.toList) (hrun : f t path = (.ok a, t')) :
    call path f t = (.ok a, t') := by
  rw [call, if_neg h, hrun]

/-- A call on a path without that character is refused as the tree refuses it. -/
lemma call_error {e : SystemError} (h : '\x00' ∉ path.toList) (hrun : f t path = (.error e, t')) :
    call path f t = (.error (.system e), t') := by
  rw [call, if_neg h, hrun]

/-- An answer of a call. -/
lemma of_call_ok {a : α} (h : call path f t = (.ok a, t')) :
    '\x00' ∉ path.toList ∧ f t path = (.ok a, t') := by
  by_cases hnul : '\x00' ∈ path.toList
  · rw [call_nul hnul] at h
    cases h
  · refine ⟨hnul, ?_⟩
    rcases hrun : f t path with ⟨e | b, t₁⟩
    · rw [call_error hnul hrun] at h
      cases h
    · rw [call_ok hnul hrun] at h
      cases h
      rfl

/-- The files are what stands at the places of their paths. -/
def fileView : Device.Files FileTree where
  bytes t path := t.bytesAt (placeOf path)
  Present t path := '\x00' ∉ path.toList ∧ ∃ content, t.lookup path = .ok (.file content)
  Honest t := t.Regular
  Apart path path' := key (placeOf path) ≠ key (placeOf path')

/-- A tree that keeps its files is as good as it was to whoever asks for them. -/
lemma Keeps.stays (h : t.Keeps t') (ht : t.Regular) : fileView.Stays t t' where
  honest := h.regular ht
  bytes := funext fun path => h.bytes (placeOf path)
  present := fun ⟨hnul, _, hlookup⟩ => ⟨hnul, h.lookup_file hlookup⟩

/-- A call that keeps the files is calm, whether or not its path can be told to the system. -/
lemma call_calm (path : String) (h : ∀ t : FileTree, t.Keeps (f t path).2) :
    fileView.Calm (call path f) fun _ _ => True := by
  intro t ht
  by_cases hnul : '\x00' ∈ path.toList
  · exact Ends.of_error (call_nul hnul t) (.refl ht)
  · have hkeeps := h t
    rcases hrun : f t path with ⟨e | a, t'⟩
    · rw [hrun] at hkeeps
      exact Ends.of_error (call_error hnul hrun) (hkeeps.stays ht)
    · rw [hrun] at hkeeps
      exact Ends.of_ok (call_ok hnul hrun) ⟨hkeeps.stays ht, trivial⟩

/-- A look at the tree leaves it as it is. -/
lemma look_keeps (g : FileTree → String → Except SystemError α) (t : FileTree) (path : String) :
    t.Keeps (look g t path).2 := .refl t

/-- Opening a file keeps the files also where it is refused. -/
lemma openFile_change_keeps (t : FileTree) (path : String) : t.Keeps (change openFile t path).2 := by
  rw [change]
  split
  · rename_i h
    exact openFile_keeps h
  · exact .refl t

/-- A change that succeeded is the one that was asked for. -/
lemma change_ok {g : FileTree → String → Except SystemError FileTree}
    (h : change g t path = (.ok (), t')) : g t path = .ok t' := by
  rw [change] at h
  split at h
  · rename_i hrun
    cases h
    exact hrun
  · cases h

/-- A file that was opened is there. -/
lemma openFile_present (h : t.openFile path = .ok t') : ∃ content, t'.lookup path = .ok (.file content) := by
  obtain ⟨hnames, ⟨content, hitem, rfl⟩ | ⟨hitem, rfl⟩⟩ := openFile_ok h
  · exact ⟨content, lookup_file_iff.mpr ⟨hnames, hitem⟩⟩
  · refine ⟨{}, lookup_file_iff.mpr ⟨(extends_put hitem _).names hnames, ?_⟩⟩
    exact item?_put_self (by rw [hitem]; exact fun h => by cases h) _

/-- What is read at the path of a file is that file. -/
lemma contentAt_of_lookup (h : t.lookup path = .ok (.file content)) : t.contentAt path = content := by
  rw [contentAt, h]

/-- The bytes at the place of a file are those of the file. -/
lemma bytesAt_of_lookup (h : t.lookup path = .ok (.file content)) :
    t.bytesAt (placeOf path) = content.content := by
  rw [bytesAt, (lookup_file_iff.mp h).2]

/-- A file is read, or there is nothing to read. -/
lemma toList_read (ht : t.Regular) (path : String) (pos len : ℕ) :
    ((t.contentAt path).read pos len).data.toList <+: ((t.bytesAt (placeOf path)).drop pos).take len := by
  -- Without a file at the path, an empty one is read.
  by_cases hfile : ∃ content, t.lookup path = .ok (.file content)
  · obtain ⟨content, hfile⟩ := hfile
    rw [contentAt_of_lookup hfile, bytesAt_of_lookup hfile,
      (ht.of_item (lookup_file_iff.mp hfile).2).toList_read]
  · have hnone : t.contentAt path = {} := by
      rw [contentAt]
      split
      · rename_i content hlookup
        exact absurd ⟨content, hlookup⟩ hfile
      · rfl
    rw [hnone, SparseFile.regular_empty.toList_read]
    simp [SparseFile.content]

/-- A file gets other bytes. -/
lemma put_writes (ht : t.Regular) (hlookup : t.lookup path = .ok (.file content)) (pos : ℕ)
    (part : ByteArray) :
    fileView.Writes t path pos part.data.toList (t.put (placeOf path) (.file (content.write pos part))) := by
  have hitem := (lookup_file_iff.mp hlookup).2
  have hcontent := ht.of_item hitem
  have hextends := extends_put_file hitem (content.write pos part)
  -- Blocks in order, the bytes written at their place, the other files as they were, and all of
  -- them still found.
  refine ⟨ht.put _ fun content' h => ?_, ?_, fun path' hapart => ?_, ?_⟩
  · cases h
    exact hcontent.write pos part
  · change bytesAt _ (placeOf path) = (t.bytesAt (placeOf path)).overwrite pos part.data.toList
    rw [bytesAt, item?_put_self (by rw [hitem]; exact fun h => by cases h), bytesAt, hitem]
    exact hcontent.content_write pos part
  · change bytesAt _ (placeOf path') = t.bytesAt (placeOf path')
    rw [bytesAt, item?_put_other hapart, bytesAt]
  · rintro path' ⟨hnul, content', hlookup'⟩
    exact ⟨hnul, hextends.lookup_file hlookup'⟩

/-- A write puts the front of its bytes into the file, or nothing at all. -/
lemma writeAt_ends (pos : ℕ) (part : ByteArray) (ht : t.Regular) (hpath : fileView.Present t path) :
    Ends (Device.writeAt path pos part) t
      (fun n t' => n ≤ part.size ∧ fileView.Writes t path pos (part.data.toList.take n) t')
      fun _ t' => fileView.Stays t t' := by
  obtain ⟨-, content, hlookup⟩ := hpath
  have hnames := (lookup_file_iff.mp hlookup).1
  -- Nothing to write is done at once; behind the longest file there is no place; and in front of
  -- its end the bytes are cut there.
  by_cases hnone : part.size = 0
  · refine Ends.of_ok (a := 0) (t := t) ?_ ⟨Nat.zero_le _, (Device.Files.Stays.refl ht).writes_nil⟩
    simp only [Device.writeAt, writeFile, if_pos hnone]
  by_cases hfull : longestFile ≤ pos
  · refine Ends.of_error (e := .system .fileTooLarge) (t := t) ?_ (.refl ht)
    simp only [Device.writeAt, writeFile, if_neg hnone, if_pos hfull]
  · refine Ends.of_ok (a := (part.extract 0 (longestFile - pos)).size)
      (t := t.put (placeOf path) (.file (content.write pos (part.extract 0 (longestFile - pos))))) ?_
      ⟨by rw [ByteArray.size_extract]; omega, ?_⟩
    · simp only [Device.writeAt, writeFile, if_neg hnone, if_neg hfull, setContent_of_names hnames,
        contentAt_of_lookup hlookup]
    · have htake : part.data.toList.take (part.extract 0 (longestFile - pos)).size
          = (part.extract 0 (longestFile - pos)).data.toList := by
        rw [ByteArray.data_extract, Array.toList_extract, List.extract_eq_take_drop, List.drop_zero,
          Nat.sub_zero, ByteArray.size_extract, List.take_eq_take_iff]
        simp
      rw [htake]
      exact put_writes ht hlookup pos _

/-- A tree of files keeps to them. -/
def account : Device.Account FileTree where
  toFiles := fileView
  makeDirs_calm path := call_calm path fun t => makeDirs_keeps _ t path
  length_calm path := call_calm path fun t => look_keeps lengthAt t path
  attach_calm path := call_calm path fun t => openFile_change_keeps t path
  attach_present _ hrun := by
    obtain ⟨hnul, hchange⟩ := of_call_ok hrun
    exact ⟨hnul, openFile_present (change_ok hchange)⟩
  size_calm path := call_calm path fun t => look_keeps lengthAt t path
  size_eq _ hpath hrun := by
    obtain ⟨-, content, hlookup⟩ := hpath
    obtain ⟨-, hlook⟩ := of_call_ok hrun
    rw [look, lengthAt, hlookup] at hlook
    cases hlook
    exact (bytesAt_of_lookup hlookup ▸ content.length_content).symm
  readAt_calm path pos len t ht := Ends.of_ok rfl ⟨.refl ht, toList_read ht path pos len⟩
  writeAt_ends _ pos part _ ht hpath := writeAt_ends pos part ht hpath
  sync_calm _ t ht := Ends.of_ok (a := ()) (t := t) rfl ⟨.refl ht, trivial⟩

/-! ### Trees that serve -/

variable {folder : String} {own : Set String}

/-- A folder is there, and certain files can be opened. -/
structure Ready (folder : String) (own : Set String) (t : FileTree) : Prop where
  regular : t.Regular
  folder_nul : '\x00' ∉ folder.toList
  made : folder = "" ∨ t.isFolder folder
  own_nul : ∀ path ∈ own, '\x00' ∉ path.toList
  names : ∀ path ∈ own, t.Names path
  files : ∀ path ∈ own, t.item? (placeOf path) ≠ some .folder

/-- A tree that has grown is still ready, if no folder stands where a file has to be. -/
lemma Ready.of_extends (h : Ready folder own t) (hextends : t.Extends t') (hregular : t'.Regular)
    (hfiles : ∀ path ∈ own, t'.item? (placeOf path) ≠ some .folder) : Ready folder own t' :=
  ⟨hregular, h.folder_nul, h.made.imp_right hextends.isFolder, h.own_nul,
    fun path hpath => hextends.names (h.names path hpath), hfiles⟩

/-- A file that is put into the tree stands in the way of none of these. -/
lemma Ready.put_file (h : Ready folder own t) (hextends : t.Extends (t.put place (.file content)))
    (hcontent : content.Regular) : Ready folder own (t.put place (.file content)) := by
  refine h.of_extends hextends (h.regular.put place fun _ heq => by cases heq; exact hcontent)
    fun path hpath => ?_
  have hfile := h.files path hpath
  -- Where the file was put now stands a file, elsewhere what stood there before.
  rw [item?_put, if_neg]
  · split
    · exact fun h => by cases h
    · exact hfile
  · intro hout
    rw [item?, if_pos hout] at hfile
    exact hfile rfl

/-- The folder is there, so there is nothing to make. -/
lemma makeDirs_serves : Device.Serves (Ready folder own) (Device.makeDirs (δ := FileTree) folder) := by
  intro t ht
  have hrun : makeDirs ((Path.pieces folder).length + 1) t folder = (.ok (), t) := by
    obtain hempty | hfolder := ht.made
    · rw [makeDirs, if_pos hempty]
    · exact makeDirs_of_isFolder hfolder _
  exact Ends.of_ok (call_ok (f := fun t path => makeDirs ((Path.pieces path).length + 1) t path)
    ht.folder_nul hrun) ht

/-- A file of the folder is opened, be it there or not. -/
lemma attach_serves (hown : path ∈ own) :
    Device.Serves (Ready folder own) (Device.attach (δ := FileTree) path) := by
  intro t ht
  obtain ⟨folder', name, hlocate, hshort⟩ := ht.names path hown
  have hopen := openFile_of_locate hlocate
  rw [if_neg (Nat.not_lt.mpr hshort)] at hopen
  have hnul := ht.own_nul path hown
  -- A file is made where nothing stands; a folder does not stand there.
  rcases hitem : t.item? (placeOf path) with _ | _ | content
  · rw [hitem] at hopen
    exact Ends.of_ok (call_ok hnul (by rw [change, hopen])) (ht.put_file (extends_put hitem _) SparseFile.regular_empty)
  · exact absurd hitem (ht.files path hown)
  · rw [hitem] at hopen
    exact Ends.of_ok (call_ok hnul (by rw [change, hopen])) ht

/-- What a file measures can be asked for. -/
lemma lengthAt_serves (hpath : account.Present t path) (ht : Ready folder own t) :
    Ends (call path (look lengthAt)) t (fun _ t' => Ready folder own t') fun _ _ => False := by
  obtain ⟨hnul, content, hlookup⟩ := hpath
  exact Ends.of_ok (call_ok hnul (by rw [look, lengthAt, hlookup]; rfl)) ht

/-- A look at the tree leaves it as it is, whatever the path. -/
lemma call_look (g : FileTree → String → Except SystemError α) (t : FileTree) (path : String) :
    (call path (look g) t).2 = t := by
  by_cases hnul : '\x00' ∈ path.toList
  · rw [call_nul hnul]
  · rcases hrun : g t path with e | a
    · have hlook : look g t path = (.error e, t) := by rw [look, hrun]
      rw [call_error hnul hlook]
    · have hlook : look g t path = (.ok a, t) := by rw [look, hrun]
      rw [call_ok hnul hlook]

/-- The size of a file that is there can be asked for. -/
lemma size_serves (path : String) (t : FileTree) (ht : Ready folder own t) :
    Ends (Device.size path) t (fun _ t' => Ready folder own t')
      fun _ t' => Ready folder own t' ∧ ¬ account.Present t path := by
  rcases hrun : Device.size path t with ⟨e | n, t'⟩
  · obtain rfl : t = t' := (call_look lengthAt t path).symm.trans (congrArg Prod.snd hrun)
    exact Ends.of_error hrun ⟨ht, fun hpath => (lengthAt_serves hpath ht).error hrun⟩
  · obtain rfl : t = t' := (call_look lengthAt t path).symm.trans (congrArg Prod.snd hrun)
    exact Ends.of_ok hrun ht

/-- A read of a file moves a byte, unless it starts at the end. -/
lemma readAt_serves (path : String) (pos len : ℕ) (t : FileTree) (ht : Ready folder own t)
    (hlen : 0 < len) :
    Ends (Device.readAt path pos len) t
      (fun part t' => Ready folder own t' ∧ (account.Present t path →
        pos + len ≤ (account.bytes t path).length → 0 < part.size)) fun _ _ => False := by
  refine Ends.of_ok (a := (t.contentAt path).read pos len) (t := t) rfl ⟨ht, ?_⟩
  rintro ⟨-, content, hlookup⟩ hinside
  change pos + len ≤ (t.bytesAt (placeOf path)).length at hinside
  rw [bytesAt_of_lookup hlookup, SparseFile.length_content] at hinside
  have hread := congrArg List.length
    ((ht.regular.of_item (lookup_file_iff.mp hlookup).2).toList_read pos len)
  rw [Array.length_toList, ByteArray.size_data, List.length_take, List.length_drop,
    SparseFile.length_content] at hread
  rw [contentAt_of_lookup hlookup, hread]
  omega

/-- A write to a file moves a byte, unless it starts where no file has one. -/
lemma writeAt_serves (pos : ℕ) (part : ByteArray) (ht : Ready folder own t)
    (hpath : account.Present t path) (hpart : 0 < part.size) :
    Ends (Device.writeAt path pos part) t
      (fun n t' => Ready folder own t' ∧ (pos < longestFile → 0 < n))
      fun _ t' => Ready folder own t' ∧ ¬ pos < longestFile := by
  obtain ⟨-, content, hlookup⟩ := hpath
  obtain ⟨hnames, hitem⟩ := lookup_file_iff.mp hlookup
  by_cases hfull : longestFile ≤ pos
  · refine Ends.of_error (e := .system .fileTooLarge) (t := t) ?_ ⟨ht, Nat.not_lt.mpr hfull⟩
    simp only [Device.writeAt, writeFile, if_neg hpart.ne', if_pos hfull]
  · refine Ends.of_ok (a := (part.extract 0 (longestFile - pos)).size)
      (t := t.put (placeOf path) (.file (content.write pos (part.extract 0 (longestFile - pos))))) ?_
      ⟨ht.put_file (extends_put_file hitem _) ((ht.regular.of_item hitem).write pos _), fun _ => ?_⟩
    · simp only [Device.writeAt, writeFile, if_neg hpart.ne', if_neg hfull, setContent_of_names hnames,
        contentAt_of_lookup hlookup]
    · rw [ByteArray.size_extract]
      omega

/-- A tree serves a folder that is there, and the files that can be opened. It is full where
a file would grow too long. -/
def service (folder : String) (own : Set String) : account.Service folder own where
  Ready := Ready folder own
  Room pos := pos < longestFile
  makeDirs_serves := makeDirs_serves
  attach_serves _ hpath := attach_serves hpath
  length_serves _ _ ht hpath := lengthAt_serves hpath ht
  size_serves := size_serves
  readAt_serves path pos len t ht hlen := (readAt_serves path pos len t ht hlen).mono_error
    fun _ _ h => h.elim
  writeAt_serves _ pos part _ ht hpath hpart := writeAt_serves pos part ht hpath hpart
  sync_serves _ t ht _ := Ends.of_ok (a := ()) (t := t) rfl ht

/-- Where a folder was made and the files in it are opened, they are served. -/
lemma ready_of_made {made : FileTree} (ht : t.Regular)
    (hmade : Device.makeDirs folder t = (.ok (), made))
    (hopen : ∀ path ∈ own, ∃ t', Device.attach path made = (.ok (), t')) :
    (service folder own).Ready made := by
  obtain ⟨hnul, hrun⟩ := of_call_ok hmade
  have hkeeps := makeDirs_keeps ((Path.pieces folder).length + 1) t folder
  rw [hrun] at hkeeps
  refine ⟨hkeeps.regular ht, hnul, makeDirs_isFolder hrun, fun path hpath => ?_, fun path hpath => ?_,
    fun path hpath => ?_⟩ <;> obtain ⟨t', hattach⟩ := hopen path hpath <;>
    obtain ⟨hown, hchange⟩ := of_call_ok hattach
  · exact hown
  · exact (openFile_ok (change_ok hchange)).1
  · obtain ⟨-, ⟨content, hitem, -⟩ | ⟨hitem, -⟩⟩ := openFile_ok (change_ok hchange)
    · rw [hitem]
      exact fun h => by cases h
    · rw [hitem]
      exact fun h => by cases h

/-- All pages that a cache can have are in room if they are no larger than usual. -/
lemma room_of_lt {pos : ℕ} (h : pos < CacheFile.indexLimit * 4096) : (service folder own).Room pos := h

/-! ### The files of the caches -/

/-- A name in a folder is the last name that leads to its place. -/
lemma exists_placeOf_join (folder : String) {name : String} (hname : Path.Plain name) :
    ∃ before, placeOf (Path.join folder name) = before ++ [name] := by
  obtain ⟨before, hsegments⟩ := Path.exists_segments_join folder hname
  have hnamed : named (Path.join folder name) = before.filter (· ≠ "") ++ [name] := by
    rw [named, hsegments, List.filter_append, List.filter_singleton]
    simp [hname.not_empty]
  refine ⟨(before.filter (· ≠ "")).foldl move (origin (Path.join folder name)), ?_⟩
  rw [placeOf, hnamed, List.foldl_append]
  exact move_name hname.not_empty hname.not_dot hname.not_dots _

/-- Different caches have files of their own. -/
lemma apart_pathOf (store : PageStore) {c b : CacheId} (h : c ≠ b) :
    account.Apart (store.pathOf c) (store.pathOf b) := by
  -- The place of a cache's file ends in the name of the file, behind some folders.
  have hleads : ∀ c, ∃ front, Path.Leads front ∧
      (key (placeOf (store.pathOf c))).toList = front ++ s!"cache-{c}.pages".toList := fun c => by
    obtain ⟨before, hplace⟩ := exists_placeOf_join store.folder (PageStore.plain_name c)
    rw [PageStore.pathOf, hplace, key]
    exact Path.exists_leads_intercalate before _
  intro hkey
  obtain ⟨front, hfront, hpath⟩ := hleads c
  obtain ⟨front', hfront', hpath'⟩ := hleads b
  rw [hkey, hpath'] at hpath
  exact h (PageStore.name_injective (String.toList_inj.mp (hfront'.append_injective hfront
    (PageStore.plain_name b).no_slash (PageStore.plain_name c).no_slash hpath)).symm)

end FileTree

end PageCatalog
