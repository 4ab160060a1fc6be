/-!
Hexadecimal text.

* `Text.hexDigits w n`: the last `w` hexadecimal digits of `n`, in lower case.
* `Text.hexWord`: a 64-bit word behind `0x`, always with 16 digits.
-/

namespace PageCatalog.Text

/-- The last `w` hexadecimal digits of `n`, the most significant first. -/
def hexDigits : Nat → Nat → List Char
  | 0, _ => []
  | w + 1, n => Nat.digitChar ((n >>> (4 * w)) % 16) :: hexDigits w n

/-- A word of 64 bits as `0x` and 16 digits. -/
def hexWord (n : Nat) : String :=
  "0x" ++ String.ofList (hexDigits 16 n)

end PageCatalog.Text
