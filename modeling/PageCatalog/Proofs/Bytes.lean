import Mathlib.Tactic
import PageCatalog.Bytes

/-!
Numbers in bytes, written and read back.

* `Bytes.toNat_ofNat`: a written number reads back.
* `Bytes.ofNat_toNat`: a read number is written back.
-/

namespace PageCatalog

namespace Bytes

/-- The first byte is what is left above the others. -/
lemma ofNat_succ (w n : ℕ) : ofNat (w + 1) n = UInt8.ofNat (n / 256 ^ w) :: ofNat w n := by
  rw [ofNat, Nat.shiftRight_eq_div_pow, pow_mul]
  rfl

/-- Reading with a start value shifts that value past all digits. -/
theorem foldl_digits (bs : Bytes) (s : Nat) :
    bs.foldl (fun n b => 256 * n + b.toNat) s = s * 256 ^ bs.length + toNat bs := by
  induction bs generalizing s with
  | nil => simp [toNat]
  | cons b bs ih =>
      simp only [List.foldl_cons, toNat, List.length_cons]
      rw [ih (256 * s + b.toNat), ih (256 * 0 + b.toNat), Nat.pow_succ]
      grind

/-- The first digit counts once for every string of the rest. -/
theorem toNat_cons (b : UInt8) (bs : Bytes) :
    toNat (b :: bs) = b.toNat * 256 ^ bs.length + toNat bs := by
  rw [toNat, List.foldl_cons, foldl_digits]
  simp

theorem toNat_lt (bs : Bytes) : toNat bs < 256 ^ bs.length := by
  induction bs with
  | nil => simp [toNat]
  | cons b bs ih =>
      have hb : b.toNat < 256 := b.toNat_lt
      rw [toNat_cons, List.length_cons, Nat.pow_succ]
      calc b.toNat * 256 ^ bs.length + toNat bs
          < b.toNat * 256 ^ bs.length + 256 ^ bs.length := by omega
        _ = (b.toNat + 1) * 256 ^ bs.length := by rw [Nat.add_mul, Nat.one_mul]
        _ ≤ 256 * 256 ^ bs.length := Nat.mul_le_mul_right _ hb
        _ = 256 ^ bs.length * 256 := Nat.mul_comm _ _

/-- A written number reads back, up to what its width cuts off. -/
theorem toNat_ofNat (w n : Nat) : toNat (ofNat w n) = n % 256 ^ w := by
  induction w with
  | zero => simp [ofNat, toNat, Nat.mod_one]
  | succ w ih =>
      have top : (UInt8.ofNat (n / 256 ^ w)).toNat = n / 256 ^ w % 256 := by simp
      rw [ofNat_succ, toNat_cons, ih, length_ofNat, top, Nat.pow_succ, Nat.mod_mul, Nat.mul_comm,
        Nat.add_comm]

/-- A read number is written back as the same bytes. -/
theorem ofNat_toNat (bs : Bytes) : ofNat bs.length (toNat bs) = bs := by
  suffices h : ∀ (bs : Bytes) (k : Nat), ofNat bs.length (k * 256 ^ bs.length + toNat bs) = bs by
    simpa using h bs 0
  intro bs
  induction bs with
  | nil => intro k; rfl
  | cons b bs ih =>
      intro k
      have hpos : 0 < 256 ^ bs.length := Nat.pow_pos (by decide)
      -- the top digit is what is left above the digits of the rest
      have hsplit : k * 256 ^ (bs.length + 1) + toNat (b :: bs)
          = (k * 256 + b.toNat) * 256 ^ bs.length + toNat bs := by
        rw [toNat_cons, Nat.pow_succ]; grind
      rw [List.length_cons, hsplit, ofNat_succ, ih]
      congr 1
      rw [Nat.mul_comm, Nat.mul_add_div hpos, Nat.div_eq_of_lt (toNat_lt bs), Nat.add_zero]
      apply UInt8.toNat_inj.1
      rw [UInt8.toNat_ofNat']
      have := b.toNat_lt
      omega

end Bytes

end PageCatalog
