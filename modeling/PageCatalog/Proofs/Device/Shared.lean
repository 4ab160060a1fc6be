import Mathlib.Tactic
import PageCatalog.Proofs.Device.Disks
import PageCatalog.Proofs.Device.Rounds

/-!
Files in memory are shared by path.

What a disk in memory answers is known from the calls it has had. A file is as long as the
furthest write of some bytes has made it, and at each of its places stands the byte that was last
written there, or zero. It does not matter through which handle the calls came: a handle is
named by the path it was opened under, and all spellings of a path lead to one file.

* `FileWrite.extent`, `FileWrite.lastByte`: what is left of a row of writes.
* `FileCall`, `FileCall.run`: calls and what they do; `MemoryDisk.after`: a row of calls.
* `FileCall.reply`: the answer to a call from the calls before it.
* `MemoryDisk.Handled`: every handle was opened before it is used.
* `run_cases`, `present_run`, `fileBytes_run`: what one call does to the files.
* `MemoryDisk.Reflects`: a disk is as its calls say; `Reflects.step`, `Handled.reflects`.
* `MemoryDisk.replies_of_handled`: the answers.
-/

namespace PageCatalog

/-! ### Writes -/

/-- Bytes written to a file from a place on. -/
structure FileWrite where
  pos : ℕ
  bytes : Bytes

namespace FileWrite

/-- Where a write ends. -/
def stop (w : FileWrite) : ℕ := w.pos + w.bytes.length

/-- A place is written by a write. -/
def Covers (w : FileWrite) (i : ℕ) : Prop := w.pos ≤ i ∧ i < w.stop

instance (w : FileWrite) (i : ℕ) : Decidable (w.Covers i) := inferInstanceAs (Decidable (_ ∧ _))

/-- The furthest end of a write of some bytes; `0` if there is none. -/
def extent (ws : List FileWrite) : ℕ :=
  ((ws.filter fun w => w.bytes ≠ []).map stop).foldl max 0

/-- The byte last written at a place; `0` if there is none. -/
def lastByte (ws : List FileWrite) (i : ℕ) : UInt8 :=
  ((ws.reverse.find? fun w => w.Covers i).map fun w => w.bytes.byte (i - w.pos)).getD 0

/-- A write reaches no further, or to its end. -/
lemma extent_concat (ws : List FileWrite) (w : FileWrite) :
    extent (ws ++ [w]) = if w.bytes = [] then extent ws else max (extent ws) w.stop := by
  rw [extent, List.filter_append, List.map_append, List.foldl_append, ← extent]
  split
  · rw [List.filter_cons_of_neg (by simpa)]
    rfl
  · rw [List.filter_cons_of_pos (by simpa)]
    rfl

/-- A write comes before all earlier ones where it writes. -/
lemma lastByte_concat (ws : List FileWrite) (w : FileWrite) (i : ℕ) :
    lastByte (ws ++ [w]) i = if w.Covers i then w.bytes.byte (i - w.pos) else lastByte ws i := by
  rw [lastByte, List.reverse_append, List.reverse_singleton, List.singleton_append]
  split
  · rw [List.find?_cons_of_pos (by simpa)]
    rfl
  · rw [List.find?_cons_of_neg (by simpa), lastByte]

end FileWrite

/-! ### Calls -/

/-- A call of a disk, by path, or of a file, through a handle that was opened under a path. The
copies of a disk share its files, so it does not matter which of them is called. -/
inductive FileCall where
  | attach (path : String)
  | length (path : String)
  | size (path : String)
  | readAt (path : String) (pos : ℕ) (buffer : ByteArray)
  | writeAt (path : String) (pos : ℕ) (bytes : ByteArray)
  | writeExact (path : String) (pos : ℕ) (bytes : ByteArray)

/-- The answer to a call. That to a read is the number of bytes it has got and the buffer
behind it. -/
inductive FileAnswer where
  | done
  | size (n : ℕ)
  | read (n : ℕ) (buffer : Bytes)
  | wrote (n : ℕ)
  | refused (e : IoError)
  deriving DecidableEq

/-- A call of a device, as a call with an answer. -/
def FileAnswer.of {α : Type} (answer : α → FileAnswer) (call : DeviceM MemoryDisk α)
    (disk : MemoryDisk) : FileAnswer × MemoryDisk :=
  match call disk with
  | (.ok a, disk') => (answer a, disk')
  | (.error e, disk') => (.refused e, disk')

namespace FileCall

/-- The path of the file that a call is for. -/
def path : FileCall → String
  | attach path | length path | size path | readAt path _ _ | writeAt path _ _
  | writeExact path _ _ => path

/-- The path of the handle that a call goes through. -/
def handle? : FileCall → Option String
  | attach _ | length _ => none
  | size path | readAt path _ _ | writeAt path _ _ | writeExact path _ _ => some path

/-- What a call does. A read puts what it gets at the front of its buffer. -/
def run : FileCall → MemoryDisk → FileAnswer × MemoryDisk
  | attach path => FileAnswer.of (fun _ => .done) (Device.attach path)
  | length path => FileAnswer.of .size (Device.length path)
  | size path => FileAnswer.of .size (Device.size path)
  | readAt path pos buffer =>
      FileAnswer.of (fun got => .read got.size (Scripted.filled buffer got))
        (Device.readAt path pos buffer.size)
  | writeAt path pos bytes => FileAnswer.of .wrote (Device.writeAt path pos bytes)
  | writeExact path pos bytes => FileAnswer.of (fun _ => .done) (Device.writeExact path pos bytes)

/-- A call opens the file at a path. -/
def Opens (path : String) : FileCall → Prop
  | attach path' => Path.canonical path' = Path.canonical path
  | _ => False

instance (path : String) : DecidablePred (Opens path)
  | attach path' => inferInstanceAs (Decidable (Path.canonical path' = Path.canonical path))
  | length _ | size _ | readAt _ _ _ | writeAt _ _ _ | writeExact _ _ _ =>
      inferInstanceAs (Decidable False)

/-- What a call writes to the file at a path. -/
def write? (path : String) : FileCall → Option FileWrite
  | writeAt path' pos bytes | writeExact path' pos bytes =>
      if Path.canonical path' = Path.canonical path then some ⟨pos, Page.bytes bytes⟩ else none
  | _ => none

end FileCall

/-- The file at a path was opened by one of the calls. -/
def Opened (path : String) (calls : List FileCall) : Prop := ∃ call ∈ calls, call.Opens path

instance (path : String) (calls : List FileCall) : Decidable (Opened path calls) :=
  inferInstanceAs (Decidable (∃ call ∈ calls, call.Opens path))

/-- What the calls have written to the file at a path, in order. -/
def writesTo (path : String) (calls : List FileCall) : List FileWrite :=
  calls.filterMap (·.write? path)

/-- The writes to a path with one more call. -/
lemma writesTo_concat (path : String) (calls : List FileCall) (call : FileCall) :
    writesTo path (calls ++ [call]) = writesTo path calls ++ (call.write? path).toList := by
  rw [writesTo, List.filterMap_append, ← writesTo]
  cases h : call.write? path <;> simp [h]

/-- The paths that were opened with one more call. -/
lemma opened_concat (path : String) (calls : List FileCall) (call : FileCall) :
    Opened path (calls ++ [call]) ↔ Opened path calls ∨ call.Opens path := by
  simp only [Opened, List.mem_append, List.mem_singleton, or_and_right, exists_or, exists_eq_left]

/-- The answer to a call, from the calls before it. -/
def FileCall.reply (calls : List FileCall) : FileCall → FileAnswer
  | attach _ => .done
  | length path =>
      if Opened path calls then .size (FileWrite.extent (writesTo path calls))
      else .refused MemoryDisk.missing
  | size path => .size (FileWrite.extent (writesTo path calls))
  | readAt path pos buffer =>
      let n := min buffer.size (FileWrite.extent (writesTo path calls) - pos)
      .read n (Scripted.stretch (FileWrite.lastByte (writesTo path calls)) pos n
        ++ (Page.bytes buffer).drop n)
  | writeAt _ _ bytes => .wrote bytes.size
  | writeExact _ _ _ => .done

namespace MemoryDisk

variable {calls : List FileCall} {call : FileCall} {disk : MemoryDisk} {path : String}

/-- A new disk after some calls. -/
def after (calls : List FileCall) : MemoryDisk :=
  calls.foldl (fun disk call => (call.run disk).2) {}

/-- The disk after one more call. -/
lemma after_concat (calls : List FileCall) (call : FileCall) :
    after (calls ++ [call]) = (call.run (after calls)).2 := by
  rw [after, List.foldl_append]
  rfl

/-- Every call that goes through a handle comes behind one that has opened it. -/
inductive Handled : List FileCall → Prop
  | nil : Handled []
  | snoc {calls : List FileCall} {call : FileCall} (h : Handled calls)
      (hcall : ∀ path ∈ call.handle?, Opened path calls) : Handled (calls ++ [call])

/-- The files of a disk are there if they were opened, and hold what was written to them. -/
structure Reflects (calls : List FileCall) (disk : MemoryDisk) : Prop where
  present : ∀ path, (disk.content? path).isSome ↔ Opened path calls
  length : ∀ path, (disk.fileBytes path).length = FileWrite.extent (writesTo path calls)
  byte : ∀ path i, (disk.fileBytes path).byte i = FileWrite.lastByte (writesTo path calls) i

/-! ### One call -/

/-- The length of a file is told if the file is there. -/
lemma run_length (disk : MemoryDisk) (path : String) :
    (FileCall.length path).run disk = (match disk.content? path with
      | some file => .size file.size
      | none => .refused missing, disk) := by
  cases h : disk.content? path <;> simp only [FileCall.run, FileAnswer.of, Device.length, h]

/-- A whole write puts its bytes into the file. -/
lemma run_writeExact (disk : MemoryDisk) (path : String) (pos : ℕ) (bytes : ByteArray) :
    (FileCall.writeExact path pos bytes).run disk = (.done, disk.written path pos bytes) := by
  simp only [FileCall.run, FileAnswer.of, writeExact_run]

/-- A call leaves the disk as it is, or makes or changes the one file it is for. -/
lemma run_cases (call : FileCall) (disk : MemoryDisk) :
    (call.run disk).2 = disk ∨ ∃ f : ByteArray → ByteArray, (call.run disk).2 =
      ⟨disk.files.alter (Path.canonical call.path) fun file => some (f (file.getD .empty))⟩ := by
  cases call with
  | attach p => exact .inr ⟨id, rfl⟩
  | length p => exact .inl (by rw [run_length])
  | size p => exact .inl rfl
  | readAt p pos buffer => exact .inl rfl
  | writeAt p pos bytes => exact .inr ⟨(overwrite · pos bytes), rfl⟩
  | writeExact p pos bytes =>
      rw [run_writeExact, written]
      split
      · exact .inl rfl
      · exact .inr ⟨(overwrite · pos bytes), rfl⟩

/-- A call for one path leaves the files of the others. -/
lemma content?_run_other (call : FileCall) (disk : MemoryDisk)
    (h : Path.canonical call.path ≠ Path.canonical path) :
    (call.run disk).2.content? path = disk.content? path := by
  obtain hrun | ⟨f, hrun⟩ := run_cases call disk
  · rw [hrun]
  · rw [hrun, content?_alter, if_neg h]

/-- No call makes a file disappear. -/
lemma present_run_of_present (call : FileCall) (h : (disk.content? path).isSome) :
    ((call.run disk).2.content? path).isSome := by
  obtain hrun | ⟨f, hrun⟩ := run_cases call disk
  · rwa [hrun]
  · rw [hrun]
    exact present_alter disk call.path path _ h

/-- A call that opens a file makes it. One that goes through a handle finds its file. -/
lemma present_run (call : FileCall) (hcall : ∀ path ∈ call.handle?, (disk.content? path).isSome)
    (path : String) : ((call.run disk).2.content? path).isSome ↔
      (disk.content? path).isSome ∨ call.Opens path := by
  by_cases hsame : Path.canonical call.path = Path.canonical path
  · cases call with
    | attach p =>
        have hmade : ((disk.attached p).content? path).isSome := by
          rw [content?_attached, if_pos (show Path.canonical p = Path.canonical path from hsame)]
          rfl
        exact iff_of_true hmade (.inr hsame)
    | length p =>
        rw [run_length]
        exact (or_iff_left id).symm
    | size p | readAt p pos buffer | writeAt p pos bytes | writeExact p pos bytes =>
        have hfile : (disk.content? path).isSome := disk.content?_congr hsame ▸ hcall p rfl
        exact iff_of_true (present_run_of_present _ hfile) (.inl hfile)
  · rw [content?_run_other call disk hsame]
    refine (or_iff_left fun hopens => hsame ?_).symm
    cases call with
    | attach p => exact hopens
    | length p | size p | readAt p pos buffer | writeAt p pos bytes | writeExact p pos bytes =>
        exact hopens.elim

/-- The bytes of a file after a call. -/
lemma fileBytes_run (call : FileCall) (disk : MemoryDisk) (path : String) :
    (call.run disk).2.fileBytes path = (match call.write? path with
      | some w => (disk.fileBytes path).overwrite w.pos w.bytes
      | none => disk.fileBytes path) := by
  cases call with
  | attach p => exact disk.fileBytes_attached p path
  | length p =>
      rw [run_length]
      rfl
  | size p => rfl
  | readAt p pos buffer => rfl
  | writeAt p pos bytes =>
      refine (disk.fileBytes_overwrite p path pos bytes).trans ?_
      rw [FileCall.write?]
      split <;> rfl
  | writeExact p pos bytes =>
      rw [run_writeExact, fileBytes_written, FileCall.write?]
      split <;> rfl

/-- What a read gets of a file. -/
lemma bytes_excerpt (file : ByteArray) (pos len : ℕ) :
    Page.bytes (excerpt file pos len) =
      Scripted.stretch (Bytes.byte (Page.bytes file)) pos (min len (file.size - pos)) := by
  have hlen : (Page.bytes file).length = file.size := Page.length_bytes file
  rw [excerpt, Page.bytes, ByteArray.data_extract, Array.toList_extract, List.extract_eq_take_drop,
    ← Page.bytes, Scripted.stretch]
  refine List.ext_getElem (by simp; omega) fun i hi hi' => ?_
  rw [List.length_map, List.length_range] at hi'
  rw [List.getElem_take, List.getElem_drop, List.getElem_map, List.getElem_range,
    Bytes.byte_of_lt (by omega)]

/-! ### Rows of calls -/

namespace Reflects

/-- A new disk is that of no calls. -/
lemma new : Reflects [] {} where
  present path := by
    simp [Opened, content?]
  length path := by
    simp [writesTo, FileWrite.extent, fileBytes, content?]
  byte path i := by
    simp [writesTo, FileWrite.lastByte, fileBytes, content?, Bytes.byte]

/-- What a call adds to the row of calls, it does to the disk. -/
lemma step (h : Reflects calls disk) (hcall : ∀ path ∈ call.handle?, Opened path calls) :
    Reflects (calls ++ [call]) (call.run disk).2 where
  present path := by
    rw [present_run call (fun path hpath => (h.present path).mpr (hcall path hpath)) path,
      h.present, opened_concat]
  length path := by
    rw [fileBytes_run, writesTo_concat]
    cases call.write? path with
    | none => simpa using h.length path
    | some w =>
        rw [Bytes.length_overwrite, Option.toList_some, FileWrite.extent_concat, h.length]
        rfl
  byte path i := by
    rw [fileBytes_run, writesTo_concat]
    cases call.write? path with
    | none => simpa using h.byte path i
    | some w =>
        rw [Bytes.byte_overwrite, Option.toList_some, FileWrite.lastByte_concat, h.byte]
        rfl

/-- A reply tells what the calls before it have made of the file. -/
lemma reply_eq (h : Reflects calls disk) (call : FileCall) :
    (call.run disk).1 = call.reply calls := by
  have hsize : ∀ path, ((disk.content? path).getD .empty).size
      = FileWrite.extent (writesTo path calls) := by
    intro path
    rw [← h.length, fileBytes, Array.length_toList, ByteArray.size_data]
  cases call with
  | attach p => rfl
  | length p =>
      rw [run_length, FileCall.reply]
      have hfile := hsize p
      have hopened := h.present p
      cases hp : disk.content? p with
      | none =>
          rw [hp] at hopened
          rw [if_neg fun ho => by simpa using hopened.mpr ho]
      | some file =>
          rw [hp] at hopened hfile
          rw [if_pos (hopened.mp rfl), ← hfile]
          rfl
  | size p => exact congrArg FileAnswer.size (hsize p)
  | readAt p pos buffer =>
      have hgot := bytes_excerpt ((disk.content? p).getD .empty) pos buffer.size
      rw [hsize, show Bytes.byte (Page.bytes ((disk.content? p).getD .empty))
        = FileWrite.lastByte (writesTo p calls) from funext (h.byte p)] at hgot
      have hn := congrArg List.length hgot
      rw [Page.length_bytes, Scripted.stretch, List.length_map, List.length_range] at hn
      change FileAnswer.read _ (Scripted.filled buffer _) = _
      rw [Scripted.filled, hgot, hn]
      rfl
  | writeAt p pos bytes => rfl
  | writeExact p pos bytes => rw [run_writeExact]; rfl

end Reflects

/-- A disk reflects the calls that were made of it, by induction on them. -/
lemma Handled.reflects (h : Handled calls) : Reflects calls (after calls) := by
  induction h with
  | nil => exact .new
  | snoc h hcall ih =>
      rw [after_concat]
      exact ih.step hcall

/-- Files do not become shorter. -/
lemma length_le_after (calls more : List FileCall) (path : String) :
    ((after calls).fileBytes path).length ≤ ((after (calls ++ more)).fileBytes path).length := by
  induction more using List.reverseRecOn with
  | nil => rw [List.append_nil]
  | append_singleton more call ih =>
      rw [← List.append_assoc, after_concat, fileBytes_run]
      cases call.write? path with
      | none => exact ih
      | some w => exact ih.trans (Bytes.length_le_overwrite _ _ _)

/-- Calls for other files leave a file as it is. -/
lemma content?_after_other (calls : List FileCall) {more : List FileCall}
    (h : ∀ call ∈ more, Path.canonical call.path ≠ Path.canonical path) :
    (after (calls ++ more)).content? path = (after calls).content? path := by
  induction more using List.reverseRecOn with
  | nil => rw [List.append_nil]
  | append_singleton more call ih =>
      rw [← List.append_assoc, after_concat, content?_run_other _ _ (h call (by simp))]
      exact ih fun other hother => h other (by simp [hother])

/-- After calls of which each has the handle it needs, every call is answered as the calls
before it say. Sizes do not shrink, and calls for other files do not matter. -/
theorem replies_of_handled (h : Handled calls) :
    (∀ call : FileCall, (call.run (after calls)).1 = call.reply calls) ∧
    ∀ (more : List FileCall) (path : String),
      (∃ m n, ((FileCall.size path).run (after calls)).1 = .size m ∧
        ((FileCall.size path).run (after (calls ++ more))).1 = .size n ∧ m ≤ n) ∧
      ((∀ call ∈ more, Path.canonical call.path ≠ Path.canonical path) →
        (after (calls ++ more)).content? path = (after calls).content? path) := by
  refine ⟨h.reflects.reply_eq, fun more path => ⟨⟨_, _, rfl, rfl, ?_⟩, content?_after_other calls⟩⟩
  have hle := length_le_after calls more path
  rwa [fileBytes, fileBytes, Array.length_toList, Array.length_toList, ByteArray.size_data,
    ByteArray.size_data] at hle

/-- Two spellings of a path, writes over each other and one of nothing far behind the end. -/
theorem replies_of_twoHandles :
    let calls : List FileCall := [.attach "d//f", .attach "d/f",
      .writeAt "d//f" 2 ⟨#[1, 2, 3]⟩, .writeExact "d/f" 4 ⟨#[9, 9]⟩, .writeAt "d/f" 100 ⟨#[]⟩]
    Handled calls ∧
      ((FileCall.readAt "d//f" 1 ⟨Array.replicate 8 255⟩).run (after calls)).1
        = .read 5 [0, 1, 2, 9, 9, 255, 255, 255] ∧
      ((FileCall.length "d/./f").run (after calls)).1 = .size 6 ∧
      ((FileCall.length "f").run (after calls)).1 = .refused missing := by
  intro calls
  have hhandled : Handled calls := by
    refine .snoc (.snoc (.snoc (.snoc (.snoc .nil ?_) ?_) ?_) ?_) ?_ <;> decide +kernel
  have hreply := (replies_of_handled hhandled).1
  refine ⟨hhandled, ?_, ?_, ?_⟩
  · exact (hreply _).trans (by decide +kernel)
  · exact (hreply _).trans (by decide +kernel)
  · exact (hreply _).trans (by decide +kernel)

end MemoryDisk

end PageCatalog
