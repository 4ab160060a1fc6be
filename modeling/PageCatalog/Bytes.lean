/-!
Strings of bytes, and numbers written in them.

A number is written with its most significant byte first, in a fixed number of
bytes; what does not fit is cut off at the top.

* `Bytes.ofNat w n`: the `w` bytes of `n`; `Bytes.length_ofNat`.
* `Bytes.toNat`: the number a string of bytes writes.
* `Bytes.order`: the order of bytes as unsigned numbers, letter by letter, a
  proper beginning first.
-/

namespace PageCatalog

/-- A string of bytes. -/
abbrev Bytes := List UInt8

namespace Bytes

/-- The last `w` digits of `n` in base 256, the most significant first. -/
def ofNat : Nat → Nat → Bytes
  | 0, _ => []
  | w + 1, n => UInt8.ofNat (n >>> (8 * w)) :: ofNat w n

/-- The number whose base 256 digits are `bs`. -/
def toNat (bs : Bytes) : Nat :=
  bs.foldl (fun n b => 256 * n + b.toNat) 0

/-- Bytes compare as unsigned numbers at the first place where two strings
differ; a proper beginning of a string comes before it. -/
def order : Bytes → Bytes → Ordering
  | [], [] => .eq
  | [], _ :: _ => .lt
  | _ :: _, [] => .gt
  | a :: as, b :: bs => (compare a.toNat b.toNat).then (order as bs)

@[simp] theorem length_ofNat (w n : Nat) : (ofNat w n).length = w := by
  induction w with
  | zero => rfl
  | succ w ih => simp [ofNat, ih]

end Bytes

end PageCatalog
