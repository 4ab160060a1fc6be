import PageCatalog.Device

/-!
Moving an exact number of bytes.

A device may move fewer bytes than it is offered, or be interrupted. A transfer
offers what is left, at the place where it stands, until everything has moved;
an interrupted call moves nothing and is repeated; a call that moves no byte, or
is refused for another reason, ends the transfer.

* `Transfer.readRounds`, `Transfer.writeRounds`: the rounds of a transfer over
  any pair of a call and a bound on its interruptions. They say what moved, also
  when the transfer fails.
* `Device.readExact`, `Device.writeExact`: transfers of a file.
-/

namespace PageCatalog

namespace Transfer

variable {δ : Type}

/-- Reads the `left` bytes from `pos` on behind the bytes `got`, in at most
`rounds` rounds. Every round moves a byte, so `left` rounds are enough. -/
def readRounds (readAt : Nat → Nat → DeviceM δ ByteArray) (stalls : δ → Nat) :
    (rounds pos left : Nat) → (got : ByteArray) → δ → (Except IoError Unit × ByteArray) × δ
  | _, _, 0, got, d => ((.ok (), got), d)
  | 0, _, _ + 1, got, d => ((.error .endOfFile, got), d)
  | rounds + 1, pos, left + 1, got, d =>
    match Device.persist (readAt pos (left + 1)) (stalls d) d with
    | (.error e, d') => ((.error e, got), d')
    | (.ok part, d') =>
      if part.size = 0 then ((.error .endOfFile, got), d')
      else readRounds readAt stalls rounds (pos + part.size) (left + 1 - part.size) (got ++ part) d'

/-- Writes `bytes` from the offset `done` on, that byte at `pos`, in at most
`rounds` rounds, and says how many bytes have been written. -/
def writeRounds (writeAt : Nat → ByteArray → DeviceM δ Nat) (stalls : δ → Nat) (bytes : ByteArray) :
    (rounds pos done : Nat) → δ → (Except IoError Unit × Nat) × δ
  | 0, _, done, d =>
    if done < bytes.size then ((.error .nothingWritten, done), d) else ((.ok (), done), d)
  | rounds + 1, pos, done, d =>
    if done < bytes.size then
      match Device.persist (writeAt pos (bytes.extract done bytes.size)) (stalls d) d with
      | (.error e, d') => ((.error e, done), d')
      | (.ok n, d') =>
        if n = 0 then ((.error .nothingWritten, done), d')
        else writeRounds writeAt stalls bytes rounds (pos + n) (done + n) d'
    else ((.ok (), done), d)

end Transfer

namespace Device

variable {δ : Type} [Device δ]

/-- The `len` bytes of a file from `pos` on. -/
def readExact (path : String) (pos len : Nat) : DeviceM δ ByteArray := fun d =>
  match Transfer.readRounds (readAt path) stalls len pos len ByteArray.empty d with
  | ((.ok _, got), d') => (.ok got, d')
  | ((.error e, _), d') => (.error e, d')

/-- Writes all of `bytes` to a file, from `pos` on. -/
def writeExact (path : String) (pos : Nat) (bytes : ByteArray) : DeviceM δ Unit := fun d =>
  match Transfer.writeRounds (writeAt path) stalls bytes bytes.size pos 0 d with
  | ((r, _), d') => (r, d')

end Device

end PageCatalog
