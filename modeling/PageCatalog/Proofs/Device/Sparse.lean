import Mathlib.Tactic
import PageCatalog.Device.Sparse
import PageCatalog.Proofs.Device.Content

/-!
Files with holes hold what was written to them.

A file with holes is the bytes at all of its places, whichever of its blocks are kept. A read
takes a range of them, and a write puts other bytes over them.

* `SparseFile.byteAt`, `SparseFile.content`: the byte at a place, and all bytes.
* `SparseFile.Regular`: blocks have one size, and there is nothing behind the end.
* `SparseFile.toList_read`: a read.
* `SparseFile.content_write`, `Regular.write`: a write.
-/

namespace PageCatalog

namespace SparseFile

variable {file : SparseFile} {pos i j : ℕ} {bytes : ByteArray}

/-- The byte at a place. -/
def byteAt (file : SparseFile) (i : ℕ) : UInt8 :=
  Bytes.byte (file.block (i / blockSize)).data.toList (i % blockSize)

/-- All bytes, from the first to the end. -/
def content (file : SparseFile) : Bytes := (List.range file.size).map file.byteAt

/-- The blocks have one size, and there are zeros behind the end. -/
structure Regular (file : SparseFile) : Prop where
  blocks : ∀ {i : ℕ} {b : ByteArray}, file.blocks[i]? = some b → b.size = blockSize
  behind : ∀ {i : ℕ}, file.size ≤ i → file.byteAt i = 0

@[simp] lemma length_content (file : SparseFile) : file.content.length = file.size := by
  simp [content]

lemma regular_empty : Regular {} := by
  have hnone : ∀ i : ℕ, ({} : SparseFile).blocks[i]? = none := fun _ => Std.TreeMap.getElem?_emptyc
  refine ⟨fun {i b} h => ?_, fun {i} _ => ?_⟩
  · rw [hnone] at h
    cases h
  · rw [byteAt, block, hnone]
    exact Bytes.byte_replicate_zero _ _

lemma Regular.size_block (h : file.Regular) (i : ℕ) : (file.block i).size = blockSize := by
  rw [block]
  cases hb : file.blocks[i]? with
  | none => simp [ByteArray.size]
  | some b => exact h.blocks hb

/-- The bytes of the file are those at its places, and zeros behind its end. -/
lemma Regular.byte_content (h : file.Regular) (i : ℕ) : Bytes.byte file.content i = file.byteAt i := by
  by_cases hi : i < file.size
  · rw [Bytes.byte_of_lt (by simpa using hi)]
    simp [content]
  · rw [Bytes.byte_of_le (by simpa using hi), h.behind (Nat.not_lt.mp hi)]

/-! ### Reading -/

/-- A block holds the bytes of its places. -/
lemma Regular.toList_block (h : file.Regular) (q : ℕ) :
    (file.block q).data.toList = (List.range' (q * blockSize) blockSize).map file.byteAt := by
  have hsize : (file.block q).data.toList.length = blockSize := by
    rw [Array.length_toList, ByteArray.size_data, h.size_block]
  refine List.ext_getElem (by simpa using hsize) fun j hj _ => ?_
  rw [hsize] at hj
  have hplace : q * blockSize + j = j + blockSize * q := by ring
  rw [List.getElem_map, List.getElem_range', Nat.one_mul, byteAt, hplace, Nat.add_mul_mod_self_left,
    Nat.mod_eq_of_lt hj, Nat.add_mul_div_left _ _ (show 0 < blockSize by decide), Nat.div_eq_of_lt hj,
    Nat.zero_add, Bytes.byte_of_lt]

/-- Blocks one after the other hold the bytes of one range. -/
lemma Regular.toList_blocks (h : file.Regular) (q n : ℕ) (got : ByteArray) :
    ((List.range' q n).foldl (fun bytes i => bytes ++ file.block i) got).data.toList
      = got.data.toList ++ (List.range' (q * blockSize) (n * blockSize)).map file.byteAt := by
  induction n generalizing q got with
  | zero => simp
  | succ n ih =>
      rw [List.range'_succ, List.foldl_cons, ih, ByteArray.toList_data_append, h.toList_block,
        List.append_assoc, ← List.map_append, Nat.succ_mul q, List.range'_append_1, Nat.succ_mul n,
        Nat.add_comm blockSize]

/-- A part of a range. -/
lemma take_drop_range' (a k m n : ℕ) (h : k + m ≤ n) :
    ((List.range' a n).drop k).take m = List.range' (a + k) m := by
  refine List.ext_getElem (by simp; omega) fun i _ _ => ?_
  simp

/-- A read gives the bytes of a range, as far as the file goes. -/
theorem Regular.toList_read (h : file.Regular) (pos len : ℕ) :
    (file.read pos len).data.toList = (file.content.drop pos).take len := by
  have hcontent : (file.content.drop pos).take len
      = (List.range' pos (min (pos + len) file.size - pos)).map file.byteAt := by
    rw [content, List.range_eq_range', ← List.map_drop, ← List.map_take, List.drop_range', Nat.zero_add,
      Nat.mul_one]
    by_cases hlen : len ≤ file.size - pos
    · rw [show file.size - pos = len + (file.size - pos - len) by omega, ← List.range'_append_1,
        List.take_left' (by simp)]
      congr 2
      omega
    · rw [List.take_of_length_le (by simp; omega)]
      congr 2
      omega
  rw [hcontent, read]
  set stop := min (pos + len) file.size with hstop
  rw [ByteArray.data_extract, Array.toList_extract, List.extract_eq_take_drop, touched]
  by_cases hnone : stop ≤ pos
  · rw [if_pos hnone, List.foldl_nil, Nat.sub_eq_zero_of_le hnone]
    simp
  · -- the range lies within the blocks that are touched
    have hbase := Nat.div_mul_le_self pos blockSize
    have hlast := Nat.lt_div_mul_add (a := stop - 1) (show 0 < blockSize by decide)
    have hblocks : pos / blockSize ≤ (stop - 1) / blockSize := Nat.div_le_div_right (by omega)
    rw [if_neg hnone, h.toList_blocks, show (ByteArray.empty.data.toList : Bytes) = [] from rfl,
      List.nil_append, ← List.map_drop, ← List.map_take, take_drop_range']
    · congr 2
      · omega
      · omega
    · rw [Nat.sub_mul, Nat.succ_mul]
      have := Nat.mul_le_mul_right blockSize hblocks
      omega

/-! ### Writing -/

/-- Blocks that are put in place are found there. -/
lemma getElem?_foldl_insert (f : ℕ → ByteArray) (is : List ℕ) (m : Std.TreeMap ℕ ByteArray) (j : ℕ) :
    (is.foldl (fun m i => m.insert i (f i)) m)[j]? = if j ∈ is then some (f j) else m[j]? := by
  induction is generalizing m with
  | nil => simp
  | cons i is ih =>
      rw [List.foldl_cons, ih, Std.TreeMap.getElem?_insert]
      by_cases hij : i = j
      · subst hij
        simp
      · simp [hij, Ne.symm hij]

lemma block_write (hsome : bytes.size ≠ 0) (j : ℕ) :
    (file.write pos bytes).block j = if j ∈ touched pos (pos + bytes.size)
      then patch (file.block j) (j * blockSize) pos bytes else file.block j := by
  rw [write, if_neg hsome, block, getElem?_foldl_insert]
  split <;> rfl

/-- The blocks that a place in a range is in are touched, and those that are touched lie
in the range. -/
lemma mem_touched {start stop : ℕ} (h : start < stop) (q : ℕ) :
    q ∈ touched start stop ↔ start < (q + 1) * blockSize ∧ q * blockSize < stop := by
  have hle : start / blockSize ≤ (stop - 1) / blockSize := Nat.div_le_div_right (by omega)
  have hpos : 0 < blockSize := by decide
  rw [touched, if_neg (Nat.not_le.mpr h), List.mem_range'_1,
    ← Nat.div_lt_iff_lt_mul hpos (x := start), Nat.lt_succ_iff]
  have hlast : q * blockSize < stop ↔ q ≤ (stop - 1) / blockSize := by
    rw [Nat.le_div_iff_mul_le hpos]
    omega
  rw [hlast]
  omega

/-- A block after bytes were written over it. -/
lemma toList_patch {b : ByteArray} {base : ℕ} (hb : b.size = blockSize)
    (hstart : pos < base + blockSize) (hstop : base < pos + bytes.size) :
    (patch b base pos bytes).size = blockSize ∧ ∀ k < blockSize,
      Bytes.byte (patch b base pos bytes).data.toList k
        = if pos ≤ base + k ∧ base + k < pos + bytes.size
          then Bytes.byte bytes.data.toList (base + k - pos) else Bytes.byte b.data.toList k := by
  have hlen : b.data.toList.length = blockSize := by simpa using hb
  have hbytes : bytes.data.toList.length = bytes.size := by simp
  set start := max pos base with hfrom
  set stop := min (pos + bytes.size) (base + blockSize) with hto
  -- The block is its own beginning, the part of the bytes that falls into it, and its own end.
  have hpatch : (patch b base pos bytes).data.toList = b.data.toList.take (start - base)
      ++ (bytes.data.toList.drop (start - pos)).take (stop - start)
      ++ b.data.toList.drop (stop - base) := by
    have hmin : min (stop - start) (bytes.size - (start - pos)) = stop - start := by omega
    rw [patch, ← hfrom, ← hto]
    simp only [ByteArray.copySlice, Array.toList_append, Array.toList_extract, List.extract_eq_take_drop,
      ByteArray.size_data, hmin, Nat.add_sub_cancel_left, List.drop_zero, Nat.sub_zero]
    rw [show start - base + (stop - start) = stop - base by omega,
      List.take_of_length_le (l := b.data.toList.drop (stop - base)) (by simp [hb])]
  constructor
  · rw [← ByteArray.size_data, ← Array.length_toList, hpatch]
    simp [hlen, hbytes]
    omega
  · intro k hk
    rw [hpatch, Bytes.byte_append, Bytes.byte_append]
    simp only [List.length_append, List.length_take, List.length_drop, hlen, hbytes]
    by_cases hbefore : k < start - base
    · rw [if_pos (by omega), if_pos (by omega), if_neg (by omega), Bytes.byte_take, if_pos hbefore]
    by_cases hinside : k < stop - base
    · rw [if_pos (by omega), if_neg (by omega), if_pos (by omega), Bytes.byte_take, if_pos (by omega),
        Bytes.byte_drop]
      congr 1
      omega
    · rw [if_neg (by omega), if_neg (by omega), Bytes.byte_drop]
      congr 1
      omega

/-- The byte at a place after a write. -/
lemma Regular.byteAt_write (h : file.Regular) (hsome : bytes.size ≠ 0) (i : ℕ) :
    (file.write pos bytes).byteAt i = if pos ≤ i ∧ i < pos + bytes.size
      then Bytes.byte bytes.data.toList (i - pos) else file.byteAt i := by
  have hpos : 0 < blockSize := by decide
  have hplace : i / blockSize * blockSize + i % blockSize = i := Nat.div_add_mod' i blockSize
  have hmod := Nat.mod_lt i hpos
  rw [byteAt, block_write hsome]
  split
  · rename_i htouched
    obtain ⟨hstart, hstop⟩ := (mem_touched (by omega) _).mp htouched
    rw [Nat.succ_mul] at hstart
    rw [(toList_patch (h.size_block _) hstart hstop).2 _ hmod, hplace]
    rfl
  · rename_i hout
    rw [mem_touched (by omega), Nat.succ_mul] at hout
    rw [if_neg (by omega)]
    rfl

lemma Regular.write (h : file.Regular) (pos : ℕ) (bytes : ByteArray) :
    (file.write pos bytes).Regular := by
  by_cases hnone : bytes.size = 0
  · rwa [SparseFile.write, if_pos hnone]
  refine ⟨fun {i b} hb => ?_, fun {i} hi => ?_⟩
  · rw [SparseFile.write, if_neg hnone, getElem?_foldl_insert] at hb
    split at hb
    · rename_i htouched
      cases hb
      obtain ⟨hstart, hstop⟩ := (mem_touched (by omega) _).mp htouched
      rw [Nat.succ_mul] at hstart
      exact (toList_patch (h.size_block i) hstart hstop).1
    · exact h.blocks hb
  · rw [SparseFile.write, if_neg hnone] at hi
    replace hi : max file.size (pos + bytes.size) ≤ i := hi
    rw [h.byteAt_write hnone, if_neg (by omega), h.behind (by omega)]

/-- A write puts its bytes over those of the file, which grows as far as needed. -/
theorem Regular.content_write (h : file.Regular) (pos : ℕ) (bytes : ByteArray) :
    (file.write pos bytes).content = file.content.overwrite pos bytes.data.toList := by
  by_cases hnone : bytes.size = 0
  · rw [SparseFile.write, if_pos hnone,
      List.eq_nil_of_length_eq_zero (show bytes.data.toList.length = 0 by simpa using hnone),
      Bytes.overwrite_nil]
  have hne : bytes.data.toList ≠ [] := fun hnil => hnone (by simpa using congrArg List.length hnil)
  refine Bytes.ext_byte ?_ fun i => ?_
  · rw [length_content, Bytes.length_overwrite, if_neg hne, length_content, SparseFile.write,
      if_neg hnone]
    simp
  · rw [(h.write pos bytes).byte_content, h.byteAt_write hnone, Bytes.byte_overwrite, h.byte_content]
    simp

end SparseFile

end PageCatalog
