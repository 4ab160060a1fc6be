import PageCatalog.Bytes

/-!
Text from bytes that need not be valid UTF-8.

Every longest beginning of a character that no valid character continues is
shown as one replacement character `U+FFFD`, and decoding goes on with the byte
that did not fit.

* `Text.Pending`: what is still expected after the first bytes of a character.
* `Text.decodeFrom`: decoding, one byte at a time; `Text.decodeLossy` starts it.
-/

namespace PageCatalog.Text

/-- A character that has begun: the number of bytes still missing, at least one;
the range the next of them must lie in; and the bits read so far. -/
structure Pending where
  missing : Nat
  least : UInt8
  greatest : UInt8
  bits : Nat

/-- Stands for bytes that are no character. -/
def replacement : Char := Char.ofNat 0xFFFD

/-- The first byte of a character: a whole one, the start of one, or neither.
The narrow ranges keep out longer spellings than needed, surrogates and numbers
above the last character. -/
def start (b : UInt8) : List Char × Option Pending :=
  let n := b.toNat
  if n < 0x80 then ([Char.ofNat n], none)
  else if 0xC2 ≤ n ∧ n ≤ 0xDF then ([], some ⟨1, 0x80, 0xBF, n - 0xC0⟩)
  else if n = 0xE0 then ([], some ⟨2, 0xA0, 0xBF, 0⟩)
  else if n = 0xED then ([], some ⟨2, 0x80, 0x9F, 0x0D⟩)
  else if 0xE1 ≤ n ∧ n ≤ 0xEF then ([], some ⟨2, 0x80, 0xBF, n - 0xE0⟩)
  else if n = 0xF0 then ([], some ⟨3, 0x90, 0xBF, 0⟩)
  else if 0xF1 ≤ n ∧ n ≤ 0xF3 then ([], some ⟨3, 0x80, 0xBF, n - 0xF0⟩)
  else if n = 0xF4 then ([], some ⟨3, 0x80, 0x8F, 4⟩)
  else ([replacement], none)

/-- The characters of a string of bytes, when a character may have begun. -/
def decodeFrom : Option Pending → Bytes → List Char
  | none, [] => []
  | some _, [] => [replacement]
  | none, b :: bs => (start b).1 ++ decodeFrom (start b).2 bs
  | some p, b :: bs =>
    if p.least ≤ b ∧ b ≤ p.greatest then
      let bits := 64 * p.bits + (b.toNat - 0x80)
      if p.missing ≤ 1 then Char.ofNat bits :: decodeFrom none bs
      else decodeFrom (some ⟨p.missing - 1, 0x80, 0xBF, bits⟩) bs
    else replacement :: ((start b).1 ++ decodeFrom (start b).2 bs)

/-- The text that bytes show. -/
def decodeLossy (bs : Bytes) : String :=
  String.ofList (decodeFrom none bs)

/-- A byte below 128 is a character of its own, wherever it stands. -/
theorem start_ascii {b : UInt8} (h : b.toNat < 0x80) : start b = ([Char.ofNat b.toNat], none) := by
  simp [start, h]

end PageCatalog.Text
