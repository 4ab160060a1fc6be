import Mathlib.Data.List.GetD
import Mathlib.Tactic
import PageCatalog.Proofs.Page.Region

/-!
The content of a file, as bytes and as pages.

A file is looked at as if zeros followed behind its end. A write puts its bytes over those
that were there, and makes the file as long as it has to be; writes of the parts of
something one after the other are one write. The pages of a file are its bytes cut into
blocks of one size.

* `Bytes.byte`: the byte at a place; `Bytes.ext_byte`.
* `Bytes.overwrite`: a write; `length_overwrite`, `byte_overwrite`, `overwrite_overwrite`.
* `Bytes.pageAt`: a page; `pageAt_overwrite_self`, `pageAt_overwrite_other`.
-/

namespace PageCatalog

namespace Bytes

variable {file file' bs : Bytes} {pos i j size : ℕ} {p : Page}

/-! ### Bytes -/

/-- The byte at a place. Behind the end there are zeros. -/
def byte (file : Bytes) (i : ℕ) : UInt8 := file.getD i 0

lemma byte_of_le (h : file.length ≤ i) : byte file i = 0 :=
  List.getD_eq_default _ _ h

lemma byte_of_lt (h : i < file.length) : byte file i = file[i] :=
  List.getD_eq_getElem _ _ h

/-- A file is known by its length and its bytes. -/
lemma ext_byte (hlength : file.length = file'.length) (hbyte : ∀ i, byte file i = byte file' i) :
    file = file' := by
  refine List.ext_getElem hlength fun i hi hi' => ?_
  rw [← byte_of_lt hi, ← byte_of_lt hi', hbyte]

/-- The byte at a place of two rows of bytes. -/
lemma byte_append (a b : Bytes) (i : ℕ) :
    byte (a ++ b) i = if i < a.length then byte a i else byte b (i - a.length) := by
  rw [byte]
  split
  · rw [List.getD_append _ _ _ _ ‹_›, byte]
  · rw [List.getD_append_right _ _ _ _ (Nat.not_lt.mp ‹_›), byte]

lemma byte_take (a : Bytes) (n i : ℕ) : byte (a.take n) i = if i < n then byte a i else 0 := by
  rw [byte, List.getD_eq_getElem?_getD, List.getElem?_take]
  split
  · rw [byte, List.getD_eq_getElem?_getD]
  · rfl

lemma byte_drop (a : Bytes) (n i : ℕ) : byte (a.drop n) i = byte a (n + i) := by
  rw [byte, List.getD_eq_getElem?_getD, List.getElem?_drop, byte, List.getD_eq_getElem?_getD]

lemma byte_replicate_zero (n i : ℕ) : byte (List.replicate n 0) i = 0 := by
  by_cases hi : i < n
  · rw [byte_of_lt (by simpa using hi), List.getElem_replicate]
  · exact byte_of_le (by simpa using hi)

/-! ### Writing -/

/-- A file with bytes written from `pos` on. A write of nothing changes nothing. -/
def overwrite (file : Bytes) (pos : ℕ) (bs : Bytes) : Bytes :=
  if bs = [] then file
  else (file ++ List.replicate (pos - file.length) 0).take pos ++ bs ++ file.drop (pos + bs.length)

@[simp] lemma overwrite_nil (file : Bytes) (pos : ℕ) : overwrite file pos [] = file :=
  if_pos rfl

lemma length_grown (file : Bytes) (pos : ℕ) :
    ((file ++ List.replicate (pos - file.length) 0).take pos).length = pos := by
  simp
  omega

/-- A file grows if it is written behind its end, unless nothing is written. -/
lemma length_overwrite (file : Bytes) (pos : ℕ) (bs : Bytes) :
    (overwrite file pos bs).length
      = if bs = [] then file.length else max file.length (pos + bs.length) := by
  rw [overwrite]
  split
  · rfl
  · rw [List.length_append, List.length_append, length_grown, List.length_drop]
    omega

/-- The byte at a place after a write. -/
lemma byte_overwrite (file : Bytes) (pos : ℕ) (bs : Bytes) (i : ℕ) :
    byte (overwrite file pos bs) i
      = if pos ≤ i ∧ i < pos + bs.length then byte bs (i - pos) else byte file i := by
  rw [overwrite]
  split
  · rename_i hnil
    rw [hnil, if_neg (by rw [List.length_nil]; omega)]
  · rw [List.append_assoc, byte_append, length_grown]
    by_cases hi : i < pos
    · rw [if_pos hi, if_neg (by omega), byte_take, if_pos hi, byte_append]
      split
      · rfl
      · rw [byte_replicate_zero, byte_of_le (Nat.not_lt.mp ‹_›)]
    · rw [if_neg hi, byte_append]
      by_cases hi' : i - pos < bs.length
      · rw [if_pos hi', if_pos ⟨Nat.not_lt.mp hi, by omega⟩]
      · rw [if_neg hi', if_neg (by omega), byte_drop]
        congr 1
        omega

/-- Two writes, one behind the other, are one. -/
lemma overwrite_overwrite (file : Bytes) (pos : ℕ) (a b : Bytes) :
    overwrite (overwrite file pos a) (pos + a.length) b = overwrite file pos (a ++ b) := by
  refine ext_byte ?_ fun i => ?_
  · simp only [length_overwrite, List.append_eq_nil_iff, List.length_append]
    by_cases ha : a = [] <;> by_cases hb : b = []
    · simp [ha, hb]
    · simp [ha, hb]
    · simp [ha, hb]
    · simp only [ha, hb, if_false, false_and]
      omega
  · simp only [byte_overwrite, byte_append, List.length_append]
    by_cases hi : i < pos
    · rw [if_neg (by omega), if_neg (by omega), if_neg (by omega)]
    by_cases ha : i < pos + a.length
    · rw [if_neg (by omega), if_pos ⟨by omega, ha⟩, if_pos ⟨by omega, by omega⟩, if_pos (by omega)]
    by_cases hb : i < pos + a.length + b.length
    · rw [if_pos ⟨by omega, hb⟩, if_pos ⟨by omega, by omega⟩, if_neg (by omega)]
      congr 1
      omega
    · rw [if_neg (by omega), if_neg (by omega), if_neg (by omega)]

/-- Writing makes no file shorter. -/
lemma length_le_overwrite (file : Bytes) (pos : ℕ) (bs : Bytes) :
    file.length ≤ (overwrite file pos bs).length := by
  rw [length_overwrite]
  split <;> omega

/-! ### Pages -/

/-- Page `i` of a file, in pages of `size` bytes. -/
def pageAt (file : Bytes) (size i : ℕ) : Page :=
  .ofBytes ((List.range size).map fun j => byte file (i * size + j))

@[simp] lemma size_pageAt (file : Bytes) (size i : ℕ) : (pageAt file size i).size = size := by
  rw [← Page.length_bytes, pageAt, Page.bytes_ofBytes, List.length_map, List.length_range]

/-- A page is known by the bytes of the file in it. -/
lemma pageAt_congr (h : ∀ j < size, byte file (i * size + j) = byte file' (i * size + j)) :
    pageAt file size i = pageAt file' size i := by
  rw [pageAt, pageAt]
  congr 1
  exact List.map_congr_left fun j hj => h j (List.mem_range.mp hj)

/-- A page of known size is the page of a file that has its bytes there. -/
lemma pageAt_eq (hsize : p.size = size) (h : ∀ j < size, byte file (i * size + j) = byte p.bytes j) :
    pageAt file size i = p := by
  rw [← Page.ofBytes_bytes p, pageAt]
  congr 1
  refine ext_byte (by simp [hsize]) fun j => ?_
  by_cases hj : j < size
  · rw [byte_of_lt (by simpa using hj), List.getElem_map, List.getElem_range, h j hj]
  · rw [byte_of_le (by simpa using Nat.not_lt.mp hj), byte_of_le (by simp [hsize]; omega)]

/-- A page that is wholly in the file is a range of its bytes. -/
lemma pageAt_of_le (h : i * size + size ≤ file.length) :
    pageAt file size i = .ofBytes ((file.drop (i * size)).take size) := by
  refine pageAt_eq ?_ fun j hj => ?_
  · rw [← Page.length_bytes, Page.bytes_ofBytes, List.length_take, List.length_drop]
    omega
  · rw [Page.bytes_ofBytes, byte_take, if_pos hj, byte_drop]

/-- A page behind the end is full of zeros. -/
lemma pageAt_of_length_le (h : file.length ≤ i * size) : pageAt file size i = .zeros size := by
  refine pageAt_eq (Page.size_zeros size) fun j _ => ?_
  rw [byte_of_le (by omega), Page.bytes_zeros, byte_replicate_zero]

/-- A page that was written is what was written. -/
lemma pageAt_overwrite_self (hsize : p.size = size) (file : Bytes) (i : ℕ) :
    pageAt (overwrite file (i * size) p.bytes) size i = p := by
  refine pageAt_eq hsize fun j hj => ?_
  rw [byte_overwrite, if_pos ⟨by omega, by rw [Page.length_bytes]; omega⟩]
  congr 1
  omega

/-- A write inside one page leaves the others as they are. -/
lemma pageAt_overwrite_other (hij : i ≠ j) (hbs : bs.length ≤ size) (file : Bytes) :
    pageAt (overwrite file (i * size) bs) size j = pageAt file size j := by
  refine pageAt_congr fun k hk => ?_
  rw [byte_overwrite, if_neg]
  rintro ⟨hle, hlt⟩
  obtain hlt' | hlt' := Nat.lt_or_gt_of_ne hij
  · have := Nat.mul_le_mul_right size hlt'
    rw [Nat.succ_mul] at this
    omega
  · have := Nat.mul_le_mul_right size hlt'
    rw [Nat.succ_mul] at this
    omega

end Bytes

end PageCatalog
