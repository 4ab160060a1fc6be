import Mathlib.Tactic
import PageCatalog.Text.Lossy

/-!
Text that is valid is shown as it is.

The bytes of a character are a first one, which says how many follow, and bytes of six
bits. Decoding them gives the character back and is then where it was before.

* `decodeFrom_character`: one character.
* `decodeLossy_toUTF8`: a text.
-/

namespace PageCatalog.Text

variable {a x n : ℕ} {bs : Bytes}

lemma toNat_ofNat (h : n < 256) : (UInt8.ofNat n).toNat = n := by
  rw [UInt8.toNat_ofNat', Nat.mod_eq_of_lt h]

/-- A byte that goes on with a character. -/
lemma decodeFrom_some {p : Pending} (hx : x < 64) (hleast : p.least.toNat ≤ x + 0x80)
    (hgreatest : x + 0x80 ≤ p.greatest.toNat) :
    decodeFrom (some p) (UInt8.ofNat (x + 0x80) :: bs) =
      if p.missing ≤ 1 then Char.ofNat (64 * p.bits + x) :: decodeFrom none bs
      else decodeFrom (some ⟨p.missing - 1, 0x80, 0xBF, 64 * p.bits + x⟩) bs := by
  have hbyte : (UInt8.ofNat (x + 0x80)).toNat = x + 0x80 := toNat_ofNat (by omega)
  rw [decodeFrom, if_pos (by
    rw [UInt8.le_iff_toNat_le, UInt8.le_iff_toNat_le, hbyte]
    exact ⟨hleast, hgreatest⟩), hbyte, Nat.add_sub_cancel]

/-- The last byte of a character. -/
lemma decodeFrom_last {least greatest : UInt8} (hx : x < 64) (hleast : least.toNat ≤ x + 0x80)
    (hgreatest : x + 0x80 ≤ greatest.toNat) :
    decodeFrom (some ⟨1, least, greatest, a⟩) (UInt8.ofNat (x + 0x80) :: bs)
      = Char.ofNat (64 * a + x) :: decodeFrom none bs := by
  rw [decodeFrom_some hx hleast hgreatest, if_pos le_rfl]

/-- A byte of a character that is not its last one. -/
lemma decodeFrom_more {least greatest : UInt8} {m : ℕ} (hx : x < 64)
    (hleast : least.toNat ≤ x + 0x80) (hgreatest : x + 0x80 ≤ greatest.toNat) :
    decodeFrom (some ⟨m + 2, least, greatest, a⟩) (UInt8.ofNat (x + 0x80) :: bs)
      = decodeFrom (some ⟨m + 1, 0x80, 0xBF, 64 * a + x⟩) bs := by
  rw [decodeFrom_some hx hleast hgreatest, if_neg (show ¬ m + 2 ≤ 1 by omega)]
  rfl

/-- The first of two bytes. -/
lemma start_two (hlow : 2 ≤ a) (ha : a < 32) :
    start (UInt8.ofNat (a + 0xC0)) = ([], some ⟨1, 0x80, 0xBF, a⟩) := by
  rw [start, toNat_ofNat (by omega)]
  simp only [if_neg (show ¬ a + 0xC0 < 0x80 by omega),
    if_pos (show 0xC2 ≤ a + 0xC0 ∧ a + 0xC0 ≤ 0xDF by omega), Nat.add_sub_cancel]

/-- The first of three bytes, and what the second one may be. -/
lemma start_three (ha : a < 16) (hx : x < 64) (hlow : a = 0 → 32 ≤ x) (hpair : a = 13 → x < 32) :
    ∃ least greatest : UInt8, start (UInt8.ofNat (a + 0xE0)) = ([], some ⟨2, least, greatest, a⟩) ∧
      least.toNat ≤ x + 0x80 ∧ x + 0x80 ≤ greatest.toNat := by
  have hskip : ¬ a + 0xE0 < 0x80 ∧ ¬ (0xC2 ≤ a + 0xE0 ∧ a + 0xE0 ≤ 0xDF) := by omega
  rw [start, toNat_ofNat (by omega)]
  simp only [if_neg hskip.1, if_neg hskip.2]
  by_cases h0 : a = 0
  · subst h0
    exact ⟨0xA0, 0xBF, rfl, by have := hlow rfl; simp; omega, by simp; omega⟩
  by_cases h13 : a = 13
  · subst h13
    exact ⟨0x80, 0x9F, rfl, by simp, by have := hpair rfl; simp; omega⟩
  refine ⟨0x80, 0xBF, ?_, by simp, by simp; omega⟩
  rw [if_neg (by omega), if_neg (by omega), if_pos (by omega), Nat.add_sub_cancel]

/-- The first of four bytes, and what the second one may be. -/
lemma start_four (ha : a ≤ 4) (hx : x < 64) (hlow : a = 0 → 16 ≤ x) (hhigh : a = 4 → x < 16) :
    ∃ least greatest : UInt8, start (UInt8.ofNat (a + 0xF0)) = ([], some ⟨3, least, greatest, a⟩) ∧
      least.toNat ≤ x + 0x80 ∧ x + 0x80 ≤ greatest.toNat := by
  obtain rfl | rfl | rfl | rfl | rfl : a = 0 ∨ a = 1 ∨ a = 2 ∨ a = 3 ∨ a = 4 := by omega
  · exact ⟨0x90, 0xBF, rfl, by have := hlow rfl; simp; omega, by simp; omega⟩
  · exact ⟨0x80, 0xBF, rfl, by simp, by simp; omega⟩
  · exact ⟨0x80, 0xBF, rfl, by simp, by simp; omega⟩
  · exact ⟨0x80, 0xBF, rfl, by simp, by simp; omega⟩
  · exact ⟨0x80, 0x8F, rfl, by simp, by have := hhigh rfl; simp; omega⟩

/-- The bytes of a character are decoded to it. -/
theorem decodeFrom_character (c : Char) (bs : Bytes) :
    decodeFrom none (String.utf8EncodeChar c ++ bs) = c :: decodeFrom none bs := by
  have hvalid : c.val.toNat < 0xD800 ∨ 0xDFFF < c.val.toNat ∧ c.val.toNat < 0x110000 := c.valid
  have hback : Char.ofNat c.val.toNat = c := Char.ofNat_toNat c
  rw [String.utf8EncodeChar]
  generalize c.val.toNat = v at hvalid hback
  subst hback
  split
  · rw [List.singleton_append, decodeFrom, start_ascii (by rw [toNat_ofNat] <;> omega),
      toNat_ofNat (by omega)]
    rfl
  split
  · rw [List.cons_append, List.cons_append, List.nil_append, decodeFrom,
      Nat.mod_eq_of_lt (show v / 64 < 0x20 by omega), start_two (by omega) (by omega),
      List.nil_append, decodeFrom_last (by omega) (by simp) (by simp; omega)]
    rw [show 64 * (v / 64) + v % 64 = v by omega]
  split
  · obtain ⟨least, greatest, hstart, hleast, hgreatest⟩ :=
      start_three (a := v / 4096) (x := v / 64 % 64) (by omega) (by omega) (by omega) (by omega)
    rw [List.cons_append, List.cons_append, List.cons_append, List.nil_append, decodeFrom,
      Nat.mod_eq_of_lt (show v / 4096 < 0x10 by omega), hstart, List.nil_append,
      decodeFrom_more (by omega) hleast hgreatest,
      decodeFrom_last (by omega) (by simp) (by simp; omega)]
    rw [show 64 * (64 * (v / 4096) + v / 64 % 64) + v % 64 = v by omega]
  · obtain ⟨least, greatest, hstart, hleast, hgreatest⟩ :=
      start_four (a := v / 262144) (x := v / 4096 % 64) (by omega) (by omega) (by omega) (by omega)
    rw [List.cons_append, List.cons_append, List.cons_append, List.cons_append, List.nil_append,
      decodeFrom, Nat.mod_eq_of_lt (show v / 262144 < 0x08 by omega), hstart, List.nil_append,
      decodeFrom_more (by omega) hleast hgreatest,
      decodeFrom_more (by omega) (by simp) (by simp; omega),
      decodeFrom_last (by omega) (by simp) (by simp; omega)]
    rw [show 64 * (64 * (64 * (v / 262144) + v / 4096 % 64) + v / 64 % 64) + v % 64 = v by omega]

/-- A text is shown as it is. -/
theorem decodeLossy_toUTF8 (s : String) : decodeLossy s.toUTF8.data.toList = s := by
  have hbytes : s.toUTF8.data.toList = s.toList.flatMap String.utf8EncodeChar := by
    rw [String.toUTF8_eq_toByteArray, ← String.utf8Encode_toList]
    exact List.toList_data_toByteArray
  have hchars : ∀ cs : List Char, decodeFrom none (cs.flatMap String.utf8EncodeChar) = cs := by
    intro cs
    induction cs with
    | nil => rfl
    | cons c cs ih => rw [List.flatMap_cons, decodeFrom_character, ih]
  rw [decodeLossy, hbytes, hchars, String.ofList_toList]

end PageCatalog.Text
