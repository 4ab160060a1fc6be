import PageCatalog.Error

/-!
Devices: what holds files.

A device is a state with calls that name files by path. Every call answers or
is refused, and returns the next state in both cases.

* `DeviceM δ`: calls of a device with states `δ`.
* `Device`: the calls.
* `Device.persist`: a call repeated while it is interrupted.
-/

namespace PageCatalog

/-- Calls of a device: an answer or a refusal, and the next state. -/
abbrev DeviceM (δ : Type) := ExceptT IoError (StateM δ)

/-- The calls of a device. The files of `size`, `readAt`, `writeAt` and `sync`
have been attached before. -/
class Device (δ : Type) where
  /-- Makes a folder and the folders around it, as far as they are missing. -/
  makeDirs : (path : String) → DeviceM δ Unit
  /-- The length of what stands at a path, which need not be attached. -/
  length : (path : String) → DeviceM δ Nat
  /-- Opens the file at a path for reading and writing; a missing file is created. -/
  attach : (path : String) → DeviceM δ Unit
  /-- The size of a file in bytes. -/
  size : (path : String) → DeviceM δ Nat
  /-- Some bytes from `pos` on, at most `len`; none at the end of the file. -/
  readAt : (path : String) → (pos len : Nat) → DeviceM δ ByteArray
  /-- Writes a beginning of `bytes` at `pos` and says how many bytes it took. -/
  writeAt : (path : String) → (pos : Nat) → (bytes : ByteArray) → DeviceM δ Nat
  /-- Makes what was written to a file durable. -/
  sync : (path : String) → DeviceM δ Unit
  /-- A bound on the reads or writes in a row that are interrupted from here on. -/
  stalls : δ → Nat

namespace Device

variable {δ α : Type}

/-- A refused call. -/
def refuse (e : IoError) : DeviceM δ α := fun d => (.error e, d)

/-- A call repeated while it is interrupted, up to `n` times. -/
def persist (call : DeviceM δ α) : Nat → DeviceM δ α
  | 0 => call
  | n + 1 => fun d =>
    match call d with
    | (.error e, d') => if e.kind = .interrupted then persist call n d' else (.error e, d')
    | answer => answer

end Device

end PageCatalog
