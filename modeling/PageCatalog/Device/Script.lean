import PageCatalog.Device.Transfer

/-!
A file whose reads and writes follow a script.

Each call takes the next step of the script and is put on record; behind the end
of the script every call moves nothing. The byte of the file at a position is
the position itself, cut to a byte.

* `Script.Step`: move a number of bytes, or fail with a kind.
* `Script`: the steps left and the calls made; `Script.next` takes a step.
* `Script.readExact`, `Script.writeExact`: exact transfers over a script.
-/

namespace PageCatalog

namespace Script

/-- What a call does. -/
inductive Step where
  | move (n : Nat)
  | fail (kind : IoKind)
  deriving DecidableEq, Repr

end Script

/-- A script, with the length and position of every call made so far. -/
structure Script where
  steps : List Script.Step
  calls : List (Nat × Nat) := []
  deriving DecidableEq, Repr

namespace Script

/-- The number of bytes that a call offered `len` bytes at `pos` moves. -/
def next (pos len : Nat) : DeviceM Script Nat := fun s =>
  let calls := s.calls ++ [(len, pos)]
  match s.steps with
  | [] => (.ok 0, ⟨[], calls⟩)
  | .move n :: rest => (.ok (min n len), ⟨rest, calls⟩)
  | .fail kind :: rest => (.error (.stated kind "scripted"), ⟨rest, calls⟩)

/-- The byte of the file at a position. -/
def byteAt (pos : Nat) : UInt8 := UInt8.ofNat pos

def readAt (pos len : Nat) : DeviceM Script ByteArray := do
  let n ← next pos len
  return ⟨Array.ofFn fun i : Fin n => byteAt (pos + i)⟩

def writeAt (pos : Nat) (bytes : ByteArray) : DeviceM Script Nat :=
  next pos bytes.size

/-- Every interruption takes a step. -/
def stalls (s : Script) : Nat := s.steps.length

/-- Reads `len` bytes from `pos` on: the result and the bytes that came. -/
def readExact (pos len : Nat) (s : Script) : (Except IoError Unit × ByteArray) × Script :=
  Transfer.readRounds readAt stalls len pos len .empty s

/-- Writes `bytes` from `pos` on: the result and the number of bytes that went. -/
def writeExact (pos : Nat) (bytes : ByteArray) (s : Script) :
    (Except IoError Unit × Nat) × Script :=
  Transfer.writeRounds writeAt stalls bytes bytes.size pos 0 s

end Script

end PageCatalog
