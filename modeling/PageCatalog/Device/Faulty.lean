import PageCatalog.Device

/-!
A device with faults put in front of another one, for trying out what survives
a failing disk.

* `Faults`: which calls fail, and how; `TransferFault` for reads and writes.
* `Faulty`: a device behind faults, with counts of the calls made to it.
* `Faulty.setFaults`, `Faulty.takeCounts`: replacing the faults, and reading the
  counts, which starts them again.
-/

namespace PageCatalog

/-- What happens to reads or to writes. -/
inductive TransferFault where
  /-- Nothing. -/
  | sound
  /-- A call moves at most so many bytes, and none if the number is zero. -/
  | atMost (n : Nat)
  /-- Every other call is interrupted, beginning with the first. -/
  | interrupted
  /-- Every call fails. -/
  | broken
  deriving DecidableEq, Repr

/-- Which calls of a device fail. -/
structure Faults where
  /-- The size that every file is said to have. -/
  size : Option Nat := none
  read : TransferFault := .sound
  write : TransferFault := .sound
  attach : Bool := false
  fileSize : Bool := false
  sync : Bool := false
  makeDirs : Bool := false
  length : Bool := false
  deriving DecidableEq, Repr

/-- Numbers of calls, failed ones included. -/
structure CallCounts where
  attached : Nat := 0
  reads : Nat := 0
  writes : Nat := 0
  syncs : Nat := 0
  deriving DecidableEq, Repr

/-- A device behind faults. -/
structure Faulty (δ : Type) where
  inner : δ
  faults : Faults := {}
  /-- The position where the device is full, if there is one: writes there and behind it
  are refused, whatever they would have moved. -/
  capacity : Option Nat := none
  /-- The number of reads and writes since the faults were set. -/
  turn : Nat := 0
  counts : CallCounts := {}

namespace Faulty

variable {δ : Type}

/-- The refusal of a call named `what`. -/
def injected (what : String) : IoError := .stated .other s!"injected {what}"

/-- Other faults from here on; the alternation of interrupted calls starts again. -/
def setFaults (d : Faulty δ) (faults : Faults) : Faulty δ := { d with faults, turn := 0 }

/-- The counts, and the device with all of them back at zero. -/
def takeCounts (d : Faulty δ) : CallCounts × Faulty δ := (d.counts, { d with counts := {} })

/-- A call of the device behind the faults. -/
def pass {α : Type} (call : DeviceM δ α) : DeviceM (Faulty δ) α := fun d =>
  let ⟨inner, faults, capacity, turn, counts⟩ := d
  let (answer, inner) := call inner
  (answer, ⟨inner, faults, capacity, turn, counts⟩)

/-- What a fault makes of a call that may move `len` bytes. `move n` is the call
offered `n` of them. -/
def transfer {α : Type} (fault : TransferFault) (what : String) (turn len : Nat)
    (move : Nat → DeviceM (Faulty δ) α) : DeviceM (Faulty δ) α :=
  match fault with
  | .sound => move len
  | .atMost n => move (min n len)
  | .interrupted => if turn % 2 = 0 then Device.refuse .interruption else move len
  | .broken => Device.refuse (injected what)

variable [Device δ]

instance : Device (Faulty δ) where
  makeDirs path := fun d =>
    if d.faults.makeDirs then (.error (injected "mkdir"), d)
    else pass (Device.makeDirs path) d
  length path := fun d =>
    if d.faults.length then (.error (injected "metadata"), d)
    else pass (Device.length path) d
  attach path := fun d =>
    let d := { d with counts.attached := d.counts.attached + 1 }
    if d.faults.attach then (.error (injected "open"), d)
    else pass (Device.attach path) d
  size path := fun d =>
    if d.faults.fileSize then (.error (injected "file_size"), d)
    else match d.faults.size with
      | some n => (.ok n, d)
      | none => pass (Device.size path) d
  readAt path pos len := fun d =>
    let turn := d.turn
    let d := { d with turn := d.turn + 1, counts.reads := d.counts.reads + 1 }
    transfer d.faults.read "read" turn len
      (fun n => pass (Device.readAt path pos n)) d
  writeAt path pos bytes := fun d =>
    let turn := d.turn
    let d := { d with turn := d.turn + 1, counts.writes := d.counts.writes + 1 }
    transfer d.faults.write "write" turn bytes.size
      (fun n =>
        if d.capacity.any (· ≤ pos) then Device.refuse (injected "device full")
        else pass (Device.writeAt path pos (bytes.extract 0 n))) d
  sync path := fun d =>
    let d := { d with counts.syncs := d.counts.syncs + 1 }
    if d.faults.sync then (.error (injected "sync"), d)
    else pass (Device.sync path) d
  stalls d := 2 * Device.stalls d.inner + 1

end Faulty

end PageCatalog
