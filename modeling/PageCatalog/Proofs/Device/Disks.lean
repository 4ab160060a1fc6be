import Mathlib.Tactic
import PageCatalog.Device.Faulty
import PageCatalog.Device.MemoryDisk
import PageCatalog.Proofs.Device.Account

/-!
The disk in memory and the device with faults keep to their files.

* `MemoryDisk.attached`, `MemoryDisk.written`: a disk after a call; `MemoryDisk.writeExact_run`.
* `MemoryDisk.account`: the files of a disk in memory.
* `Faulty.account`: the files behind faults. Whatever else fails, the device must not make
  sizes up.
-/

namespace PageCatalog

namespace MemoryDisk

/-- The bytes of the file at a path. -/
def fileBytes (disk : MemoryDisk) (path : String) : Bytes :=
  ((disk.content? path).getD .empty).data.toList

/-- The bytes of a file after some were written over it. -/
lemma toList_overwrite (file : ByteArray) (pos : ℕ) (part : ByteArray) :
    (overwrite file pos part).data.toList = Bytes.overwrite file.data.toList pos part.data.toList := by
  have hnil : part.data.toList = [] ↔ part.size = 0 := by
    rw [← List.length_eq_zero_iff, Array.length_toList, ByteArray.size_data]
  rw [overwrite, Bytes.overwrite]
  by_cases hempty : part.size = 0
  · rw [if_pos hempty, if_pos (hnil.mpr hempty)]
  rw [if_neg hempty, if_neg fun h => hempty (hnil.mp h)]
  have hcopy : ∀ grown : ByteArray, (part.copySlice 0 grown pos part.size).data.toList
      = grown.data.toList.take pos ++ part.data.toList ++ grown.data.toList.drop (pos + part.size) := by
    intro grown
    simp [ByteArray.copySlice, List.extract_eq_take_drop, List.take_of_length_le]
  have hlen : file.data.toList.length = file.size := by simp
  have hpart : part.data.toList.length = part.size := by simp
  simp only [hcopy, hlen, hpart]
  split
  · rename_i hle
    rw [Nat.sub_eq_zero_of_le (show pos ≤ file.size by omega), List.replicate_zero, List.append_nil]
  · -- the zeros behind the place of the write are written over
    rename_i hgrown
    have hgrow : (file ++ (⟨Array.replicate (pos + part.size - file.size) 0⟩ : ByteArray)).data.toList
        = file.data.toList ++ List.replicate (pos + part.size - file.size) 0 := by
      rw [ByteArray.toList_data_append, Array.toList_replicate]
    rw [hgrow, List.drop_eq_nil_of_le (by simp; omega), List.drop_eq_nil_of_le (by simp; omega)]
    congr 2
    rw [List.take_append, List.take_append, List.take_replicate, List.take_replicate, hlen]
    congr 2
    omega

/-- All spellings of a path lead to one file. -/
lemma content?_congr (disk : MemoryDisk) {path path' : String}
    (h : Path.canonical path = Path.canonical path') : disk.content? path = disk.content? path' := by
  rw [content?, content?, h]

/-- Two spellings of a path are one file. -/
lemma fileBytes_congr (disk : MemoryDisk) {path path' : String}
    (h : Path.canonical path = Path.canonical path') : disk.fileBytes path = disk.fileBytes path' := by
  rw [fileBytes, fileBytes, disk.content?_congr h]

/-- The files of a disk after one was changed. -/
lemma content?_alter (disk : MemoryDisk) (path path' : String)
    (f : Option ByteArray → Option ByteArray) :
    (⟨disk.files.alter (Path.canonical path) f⟩ : MemoryDisk).content? path'
      = if Path.canonical path = Path.canonical path' then f (disk.content? path)
        else disk.content? path' := by
  rw [content?, Std.TreeMap.getElem?_alter, content?, content?]
  simp only [Std.LawfulEqCmp.compare_eq_iff_eq]

/-- The bytes of a file after the file at a path was made or changed. -/
lemma fileBytes_alter (disk : MemoryDisk) (path path' : String) (f : ByteArray → ByteArray) :
    fileBytes ⟨disk.files.alter (Path.canonical path) fun file => some (f (file.getD .empty))⟩ path'
      = if Path.canonical path = Path.canonical path' then
          (f ((disk.content? path).getD .empty)).data.toList
        else disk.fileBytes path' := by
  rw [fileBytes, content?_alter]
  split <;> rfl

/-- The bytes of a file after some were written to the file at a path. -/
lemma fileBytes_overwrite (disk : MemoryDisk) (path path' : String) (pos : ℕ) (bytes : ByteArray) :
    fileBytes ⟨disk.files.alter (Path.canonical path) fun file =>
        some (overwrite (file.getD .empty) pos bytes)⟩ path'
      = if Path.canonical path = Path.canonical path' then
          (disk.fileBytes path').overwrite pos bytes.data.toList
        else disk.fileBytes path' := by
  rw [fileBytes_alter disk path path' (overwrite · pos bytes)]
  split
  · rw [toList_overwrite, ← disk.fileBytes_congr ‹_›, fileBytes]
  · rfl

/-- A disk after a file was attached. -/
def attached (disk : MemoryDisk) (path : String) : MemoryDisk :=
  ⟨disk.files.alter (Path.canonical path) fun file => some (file.getD .empty)⟩

/-- A file that is attached has the bytes that it had, or none. -/
lemma fileBytes_attached (disk : MemoryDisk) (path path' : String) :
    (disk.attached path).fileBytes path' = disk.fileBytes path' := by
  refine (fileBytes_alter disk path path' id).trans ?_
  split
  · exact disk.fileBytes_congr ‹_›
  · rfl

/-- A file that is attached is there. -/
lemma content?_attached (disk : MemoryDisk) (path path' : String) :
    (disk.attached path).content? path' =
      if Path.canonical path = Path.canonical path' then some ((disk.content? path).getD .empty)
      else disk.content? path' :=
  content?_alter ..

/-- A disk after some bytes were written to a file. -/
def written (disk : MemoryDisk) (path : String) (pos : ℕ) (bytes : ByteArray) : MemoryDisk :=
  if bytes.size = 0 then disk
  else ⟨disk.files.alter (Path.canonical path) fun file => some (overwrite (file.getD .empty) pos bytes)⟩

/-- The bytes of all files after a write to one. -/
lemma fileBytes_written (disk : MemoryDisk) (path path' : String) (pos : ℕ) (bytes : ByteArray) :
    (disk.written path pos bytes).fileBytes path'
      = if Path.canonical path = Path.canonical path' then
          (disk.fileBytes path').overwrite pos bytes.data.toList
        else disk.fileBytes path' := by
  rw [written]
  split
  · rename_i hempty
    rw [List.eq_nil_of_length_eq_zero (show bytes.data.toList.length = 0 by simpa using hempty),
      Bytes.overwrite_nil, ite_self]
  · exact disk.fileBytes_overwrite path path' pos bytes

/-- A write is done in one round. -/
lemma writeExact_run (disk : MemoryDisk) (path : String) (pos : ℕ) (bytes : ByteArray) :
    Device.writeExact path pos bytes disk = (.ok (), disk.written path pos bytes) := by
  rw [Device.writeExact, written]
  by_cases hsome : bytes.size = 0
  · rw [Transfer.writeRounds_done hsome.le, if_pos hsome]
  · rw [if_neg hsome]
    obtain ⟨n, hn⟩ := Nat.exists_eq_succ_of_ne_zero hsome
    have hwrite : Device.persist (Device.writeAt path pos (bytes.extract 0 bytes.size))
        (Device.stalls disk) disk = (.ok bytes.size,
          ⟨disk.files.alter (Path.canonical path) fun file =>
            some (overwrite (file.getD .empty) pos bytes)⟩) := by
      rw [ByteArray.extract_zero_size]
      rfl
    rw [hn, Transfer.writeRounds, if_pos (Nat.pos_of_ne_zero hsome), hwrite]
    simp only [if_neg hsome]
    rw [Transfer.writeRounds_done (by omega)]

/-- A write changes no other file. -/
lemma content?_written_other {disk : MemoryDisk} {path path' : String}
    (h : Path.canonical path ≠ Path.canonical path') (pos : ℕ) (bytes : ByteArray) :
    (disk.written path pos bytes).content? path' = disk.content? path' := by
  rw [written]
  split
  · rfl
  · rw [content?_alter, if_neg h]

/-- A write makes the same of files of the same content. -/
lemma content?_written {disk disk' : MemoryDisk} {path : String}
    (h : disk.content? path = disk'.content? path) (pos : ℕ) (bytes : ByteArray) :
    (disk.written path pos bytes).content? path = (disk'.written path pos bytes).content? path := by
  rw [written, written]
  split
  · exact h
  · rw [content?_alter, content?_alter, if_pos rfl, if_pos rfl, h]

/-- A file that is made or changed makes no other one disappear. -/
lemma present_alter (disk : MemoryDisk) (path path' : String) (f : Option ByteArray → ByteArray)
    (h : (disk.content? path').isSome) :
    ((⟨disk.files.alter (Path.canonical path) fun file => some (f file)⟩ : MemoryDisk).content?
      path').isSome := by
  rw [content?_alter]
  split
  · rfl
  · exact h

/-- The bytes under a path are those under every spelling of it. -/
def fileView : Device.Files MemoryDisk where
  bytes := fileBytes
  Present disk path := (disk.content? path).isSome
  Honest _ := True
  Apart path path' := Path.canonical path ≠ Path.canonical path'

/-- Asking for the length of a file that may be missing changes nothing. -/
lemma length_calm (path : String) : fileView.Calm (Device.length path) fun _ _ => True := by
  intro d h
  cases hfile : d.content? path with
  | none =>
      have hrun : Device.length path d = (.error missing, d) := by simp only [Device.length, hfile]
      exact Ends.of_error hrun (.refl h)
  | some file =>
      have hrun : Device.length path d = (.ok file.size, d) := by simp only [Device.length, hfile]
      exact Ends.of_ok hrun ⟨.refl h, trivial⟩

/-- Attaching a file changes the bytes of none. -/
lemma attach_calm (path : String) : fileView.Calm (Device.attach path) fun _ _ => True := by
  intro d _
  exact Ends.of_ok rfl ⟨⟨trivial, funext fun path' => fileBytes_attached d path path',
    fun {path'} hpath => present_alter d path path' _ hpath⟩, trivial⟩

/-- A read gives some of the bytes from its position on. -/
lemma readAt_calm (path : String) (pos len : ℕ) :
    fileView.Calm (Device.readAt path pos len) fun files part =>
      part.data.toList <+: ((files path).drop pos).take len := by
  intro d h
  refine Ends.of_ok rfl ⟨.refl h, ?_⟩
  change (excerpt ((d.content? path).getD .empty) pos len).data.toList <+: ((fileBytes d path).drop pos).take len
  rw [excerpt, ByteArray.data_extract, Array.toList_extract, List.extract_eq_take_drop, fileBytes]
  exact List.take_prefix_take_left (by omega)

/-- A write puts all its bytes into the file. -/
lemma writeAt_ends (path : String) (pos : ℕ) (part : ByteArray) (d : MemoryDisk) :
    Ends (Device.writeAt path pos part) d
      (fun n d' => n ≤ part.size ∧ fileView.Writes d path pos (part.data.toList.take n) d')
      (fun _ d' => fileView.Stays d d') := by
  refine Ends.of_ok rfl ⟨le_rfl, trivial, ?_, fun path' hpath => ?_, fun {path'} hpath => ?_⟩
  · rw [List.take_of_length_le (by simp)]
    exact (fileBytes_overwrite d path path pos part).trans (if_pos rfl)
  · exact (fileBytes_overwrite d path path' pos part).trans (if_neg hpath)
  · exact present_alter d path path' _ hpath

/-- A disk in memory refuses little and lies about nothing. -/
def account : Device.Account MemoryDisk where
  toFiles := fileView
  makeDirs_calm _ _ h := ⟨.refl h, trivial⟩
  length_calm := length_calm
  attach_calm := attach_calm
  attach_present {path d d'} _ hrun := by
    obtain rfl : d.attached path = d' := congrArg Prod.snd hrun
    change (content? _ path).isSome
    rw [content?_attached, if_pos rfl]
    rfl
  size_calm _ _ h := ⟨.refl h, trivial⟩
  size_eq {path d n d'} _ _ hrun := by
    obtain rfl : ((d.content? path).getD .empty).size = n := by cases hrun; rfl
    simp [fileView, fileBytes]
  readAt_calm := readAt_calm
  writeAt_ends path pos part d _ _ := writeAt_ends path pos part d
  sync_calm _ _ h := ⟨.refl h, trivial⟩

end MemoryDisk

/-! ### Faults -/

namespace Faulty

variable {δ α : Type}

/-- The files behind the faults. A size that is made up would not be theirs. -/
def fileView (F : Device.Files δ) : Device.Files (Faulty δ) where
  bytes d := F.bytes d.inner
  Present d := F.Present d.inner
  Honest d := F.Honest d.inner ∧ d.faults.size = none
  Apart := F.Apart

variable {F : Device.Files δ} {d : Faulty δ}

/-- A call that is passed on does what it does behind the faults. -/
lemma pass_ends {call : DeviceM δ α} {Q : α → δ → Prop} {R : IoError → δ → Prop}
    (h : Ends call d.inner Q R) :
    Ends (pass call) d (fun a d' => Q a d'.inner ∧ d'.faults = d.faults)
      (fun e d' => R e d'.inner ∧ d'.faults = d.faults) := by
  rcases hrun : call d.inner with ⟨e | a, inner⟩
  · refine Ends.of_error (e := e) (t := { d with inner }) ?_ ⟨h.error hrun, rfl⟩
    rw [pass, hrun]
  · refine Ends.of_ok (a := a) (t := { d with inner }) ?_ ⟨h.ok hrun, rfl⟩
    rw [pass, hrun]

/-- What stays behind the faults stays in front of them. -/
lemma stays_of_inner {d' : Faulty δ} (hd : (fileView F).Honest d) (h : F.Stays d.inner d'.inner)
    (hfaults : d'.faults = d.faults) : (fileView F).Stays d d' :=
  ⟨⟨h.honest, by rw [hfaults]; exact hd.2⟩, h.bytes, h.present⟩

/-- A call that is passed on is as calm as it is behind the faults. -/
lemma pass_calm {call : DeviceM δ α} {Q : (String → Bytes) → α → Prop} (h : F.Calm call Q) :
    (fileView F).Calm (pass call) Q := fun d hd =>
  (pass_ends (h d.inner hd.1)).mono (fun _ _ h => ⟨stays_of_inner hd h.1.1 h.2, h.1.2⟩)
    fun _ _ h => stays_of_inner hd h.1 h.2

/-- A call is refused, or made with fewer bytes. -/
lemma transfer_ends {fault : TransferFault} {what : String} {turn len : ℕ}
    {move : ℕ → DeviceM (Faulty δ) α} {Q : α → Faulty δ → Prop} {R : IoError → Faulty δ → Prop}
    (hmove : ∀ n ≤ len, Ends (move n) d Q R) (hrefuse : ∀ e, R e d) :
    Ends (transfer fault what turn len move) d Q R := by
  cases fault with
  | sound => exact hmove len le_rfl
  | atMost n => exact hmove _ (min_le_right n len)
  | interrupted =>
      rw [transfer]
      split
      · exact hrefuse .interruption
      · exact hmove len le_rfl
  | broken => exact hrefuse (injected what)

/-- A call that fails if a fault says so, and is passed on otherwise. -/
lemma calm_of_pass {call : DeviceM (Faulty δ) α} {inner : DeviceM δ α} {broken : Faults → Bool}
    {what : String} {Q : (String → Bytes) → α → Prop} (h : F.Calm inner Q)
    (hcall : ∀ d, ∃ d', d'.inner = d.inner ∧ d'.faults = d.faults ∧
      call d = if broken d.faults then (.error (injected what), d') else pass inner d') :
    (fileView F).Calm call Q := by
  intro d hd
  obtain ⟨d', hinner, hfaults, hrun⟩ := hcall d
  have hstays : (fileView F).Stays d d' :=
    stays_of_inner hd (by rw [hinner]; exact .refl hd.1) hfaults
  -- The call counts itself first, which changes no file. Then it is refused, or made behind the
  -- faults.
  cases hbroken : broken d.faults with
  | true => exact Ends.of_error (by rw [hrun, hbroken]; rfl) hstays
  | false =>
      rw [Ends, hrun, hbroken]
      have hpass := pass_calm h d' hstays.honest
      refine hpass.mono (fun _ _ h' => ⟨hstays.trans h'.1, ?_⟩) fun _ _ h' => hstays.trans h'
      rw [← hstays.bytes]
      exact h'.2

variable [Device δ] (A : Device.Account δ)

omit A in
/-- The size is refused, or told as it is behind the faults. -/
lemma size_run (path : String) (hd : d.faults.size = none) :
    Device.size path d = if d.faults.fileSize then (.error (injected "file_size"), d)
      else pass (Device.size path) d := by
  simp only [Device.size, hd]

/-- Asking for a size changes nothing, whether or not it is refused. -/
lemma size_calm (path : String) :
    (fileView A.toFiles).Calm (Device.size path) fun _ _ => True := by
  intro d hd
  have hrun := size_run path hd.2
  cases hbroken : d.faults.fileSize with
  | true => exact Ends.of_error (by rw [hrun, hbroken]; rfl) (.refl hd)
  | false =>
      rw [Ends, hrun, hbroken]
      exact pass_calm (A.size_calm path) d hd

/-- A read behind faults gives no more than was asked for, and less where a fault cuts it. -/
lemma readAt_calm (path : String) (pos len : ℕ) :
    (fileView A.toFiles).Calm (Device.readAt path pos len) fun files part =>
      part.data.toList <+: ((files path).drop pos).take len := by
  intro d hd
  have hd' : (fileView A.toFiles).Stays d
      { d with turn := d.turn + 1, counts.reads := d.counts.reads + 1 } := ⟨hd, rfl, fun h => h⟩
  refine transfer_ends (d := { d with turn := d.turn + 1, counts.reads := d.counts.reads + 1 })
    (fun n hn => ?_) fun _ => hd'
  refine (pass_calm (A.readAt_calm path pos n) _ hd'.honest).mono ?_ fun _ _ h => hd'.trans h
  exact fun _ _ h => ⟨hd'.trans h.1, h.2.trans (List.take_prefix_take_left hn)⟩

/-- A write behind faults puts the front of its bytes into the file, as far as it is let. -/
lemma writeAt_ends (path : String) (pos : ℕ) (part : ByteArray) (hd : (fileView A.toFiles).Honest d)
    (hpath : (fileView A.toFiles).Present d path) :
    Ends (Device.writeAt path pos part) d
      (fun n d' => n ≤ part.size ∧
        (fileView A.toFiles).Writes d path pos (part.data.toList.take n) d')
      (fun _ d' => (fileView A.toFiles).Stays d d') := by
  have hd' : (fileView A.toFiles).Stays d
      { d with turn := d.turn + 1, counts.writes := d.counts.writes + 1 } := ⟨hd, rfl, fun h => h⟩
  refine transfer_ends (d := { d with turn := d.turn + 1, counts.writes := d.counts.writes + 1 })
    (fun n hn => ?_) fun _ => hd'
  split
  · exact Ends.of_error rfl hd'
  · exact (pass_ends (d := { d with turn := d.turn + 1, counts.writes := d.counts.writes + 1 })
      (A.writeAt_extract pos hn hd.1 hpath)).mono
      (fun _ d' h => ⟨h.1.1, ⟨h.1.2.honest, by rw [h.2]; exact hd.2⟩, h.1.2.written, h.1.2.others,
        h.1.2.present⟩)
      fun _ _ h => stays_of_inner hd h.1 h.2

/-- Behind faults the files are what they are without them, as long as their sizes are told
truly. -/
def account : Device.Account (Faulty δ) where
  toFiles := fileView A.toFiles
  makeDirs_calm path := calm_of_pass (A.makeDirs_calm path) fun d => ⟨d, rfl, rfl, rfl⟩
  length_calm path := calm_of_pass (A.length_calm path) fun d => ⟨d, rfl, rfl, rfl⟩
  attach_calm path := calm_of_pass (A.attach_calm path) fun d =>
    ⟨{ d with counts.attached := d.counts.attached + 1 }, rfl, rfl, rfl⟩
  attach_present {path d d'} hd hrun := by
    cases hbroken : d.faults.attach with
    | true =>
        simp only [Device.attach, hbroken, if_true] at hrun
        cases hrun
    | false =>
        simp only [Device.attach, hbroken, Bool.false_eq_true, if_false] at hrun
        rcases hinner : Device.attach path d.inner with ⟨e | ⟨⟩, inner⟩
        · simp only [pass, hinner] at hrun
          cases hrun
        · simp only [pass, hinner] at hrun
          cases hrun
          exact A.attach_present hd.1 hinner
  size_calm := size_calm A
  size_eq {path d n d'} hd hpath hrun := by
    rw [size_run path hd.2] at hrun
    split at hrun
    · cases hrun
    · rcases hinner : Device.size path d.inner with ⟨e | m, inner⟩
      · simp only [pass, hinner] at hrun
        cases hrun
      · simp only [pass, hinner] at hrun
        cases hrun
        exact A.size_eq hd.1 hpath hinner
  readAt_calm := readAt_calm A
  writeAt_ends path pos part _ hd hpath := writeAt_ends A path pos part hd hpath
  sync_calm path := calm_of_pass (A.sync_calm path) fun d =>
    ⟨{ d with counts.syncs := d.counts.syncs + 1 }, rfl, rfl, rfl⟩

omit [Device δ] in
/-- Other faults leave the files as they are. -/
lemma stays_setFaults (hd : (fileView F).Honest d) {faults : Faults} (h : faults.size = none) :
    (fileView F).Stays d (d.setFaults faults) :=
  ⟨⟨hd.1, h⟩, rfl, fun h => h⟩

end Faulty

end PageCatalog
