import Mathlib.Tactic
import PageCatalog.Proofs.Device.Content
import PageCatalog.Proofs.Store.Access

/-!
An open cache over its file.

A page of an open cache is in memory, or else it is what stands in the file. A page in
memory that need not be written is the same in the file, so no page is lost when the file
is read again; and what a write that was broken off has left at the end of a file belongs to
a page that still has to be written.

* `PageArray`: the pages of a cache; `PageArray.ofFile`, `CacheFile.array`.
* `Grows`: how the length of a file changes.
* `CacheFile.Backed`: an open cache that goes with its file; `backed_opened`.
* `Backed.change`, `Backed.load`: pages in memory come and change.
* `Backed.write`, `Backed.write_part`: a page is written, or part of it.
* `Backed.ofFile_eq`: a file that all pages were written to gives them back.
-/

namespace PageCatalog

/-! ### Arrays of pages -/

/-- The pages of a cache: how many there are, which are freed, and what is in them. -/
structure PageArray where
  count : ℕ
  freed : Finset ℕ
  page : ℕ → Page

namespace PageArray

/-- There is a page that is not freed. -/
def Has (a : PageArray) (i : ℕ) : Prop := i < a.count ∧ i ∉ a.freed

instance (a : PageArray) (i : ℕ) : Decidable (a.Has i) := inferInstanceAs (Decidable (_ ∧ _))

/-- The pages of a file that is opened. -/
def ofFile (file : Bytes) (size : ℕ) : PageArray :=
  ⟨max (file.length / size) 1 % 0x100000000, ∅, Bytes.pageAt file size⟩

/-- The pages after one of them was written. -/
def set (a : PageArray) (i : ℕ) (p : Page) : PageArray :=
  { a with page := Function.update a.page i p }

/-- The pages and a new one behind them. -/
def push (a : PageArray) (size : ℕ) : PageArray :=
  { a with count := a.count + 1, page := Function.update a.page a.count (.zeros size) }

/-- The pages after one of them was freed. -/
def release (a : PageArray) (i size : ℕ) : PageArray :=
  { a with freed := insert i a.freed, page := Function.update a.page i (.zeros size) }

end PageArray

/-- A file keeps its length, or grows and still has fewer pages than fit the 32 bits of an
index. -/
def Grows (size : ℕ) (file file' : Bytes) : Prop :=
  file'.length = file.length ∨
    file.length < file'.length ∧ file'.length < 0x100000000 * size

section Grows

variable {size : ℕ} {file file' file'' : Bytes}

lemma Grows.refl (size : ℕ) (file : Bytes) : Grows size file file := .inl rfl

/-- A file that grew and grew again. -/
lemma Grows.trans (h : Grows size file file') (h' : Grows size file' file'') :
    Grows size file file'' := by
  unfold Grows at *
  omega

/-- What is written below the last index makes a file grow no further. -/
lemma grows_overwrite (file : Bytes) {pos : ℕ} {bs : Bytes} (h : pos + bs.length < 0x100000000 * size) :
    Grows size file (file.overwrite pos bs) := by
  rw [Grows, Bytes.length_overwrite]
  split
  · exact .inl rfl
  · omega

end Grows

namespace CacheFile

variable {k : CacheFile} {file : Bytes} {size i j : ℕ} {f g : Frame}

/-- The indexes of the pages that were freed. -/
def freed (k : CacheFile) : Finset ℕ :=
  ((k.frames.toList.filter fun e => e.2.freed).map Prod.fst).toFinset

lemma mem_freed : i ∈ k.freed ↔ ∃ f, k.frames[i]? = some f ∧ f.freed = true := by
  rw [freed, List.mem_toFinset, List.mem_map]
  constructor
  · rintro ⟨⟨j, f⟩, hin, rfl⟩
    obtain ⟨hin, hfreed⟩ := List.mem_filter.mp hin
    exact ⟨f, Std.TreeMap.mem_toList_iff_getElem?_eq_some.mp hin, hfreed⟩
  · rintro ⟨f, hf, hfreed⟩
    exact ⟨(i, f), List.mem_filter.mpr ⟨Std.TreeMap.mem_toList_iff_getElem?_eq_some.mpr hf, hfreed⟩, rfl⟩

/-- The freed pages are counted. -/
lemma card_freed (k : CacheFile) : k.freed.card = k.freedCount := by
  rw [freed, List.toFinset_card_of_nodup, List.length_map, freedCount]
  refine List.Nodup.map_on (fun a ha b hb hab => ?_) (List.Nodup.filter _ ?_)
  · have ha' := Std.TreeMap.mem_toList_iff_getElem?_eq_some.mp (List.mem_filter.mp ha).1
    have hb' := Std.TreeMap.mem_toList_iff_getElem?_eq_some.mp (List.mem_filter.mp hb).1
    rw [hab, hb'] at ha'
    exact Prod.ext hab (Option.some.inj ha').symm
  · refine Std.TreeMap.distinct_keys_toList.imp fun {a b} hne hab => hne ?_
    rw [hab]
    exact Std.ReflCmp.compare_self

/-- The pages of an open cache. -/
def array (k : CacheFile) (file : Bytes) (size : ℕ) : PageArray :=
  ⟨k.next, k.freed, fun i => (k.frames[i]?.map Frame.bytes).getD (Bytes.pageAt file size i)⟩

/-- A page in memory is what its frame says. -/
lemma page_of_frame (hf : k.frames[i]? = some f) : (k.array file size).page i = f.bytes := by
  simp [array, hf]

/-- A page that is not in memory is what the file says. -/
lemma page_of_none (hf : k.frames[i]? = none) : (k.array file size).page i = Bytes.pageAt file size i := by
  simp [array, hf]

/-- The pages of a cache after a frame was put in its place. -/
lemma array_insert (k : CacheFile) (n i : ℕ) (f : Frame) :
    array { k with next := n, frames := k.frames.insert i f } file size
      = ⟨n, if f.freed then insert i k.freed else k.freed.erase i,
          Function.update (k.array file size).page i f.bytes⟩ := by
  rw [array]
  congr 1
  · ext j
    rw [mem_freed]
    simp only [Session.getElem?_insert_frame]
    by_cases hij : i = j
    · subst hij
      cases hfreed : f.freed <;> simp [hfreed]
    · have hj : j ∈ k.freed ↔ ∃ g, k.frames[j]? = some g ∧ g.freed = true := mem_freed
      cases hfreed : f.freed <;> simp [hij, Ne.symm hij, hj]
  · funext j
    simp only [Session.getElem?_insert_frame]
    by_cases hij : i = j
    · subst hij
      simp
    · rw [if_neg hij, Function.update_of_ne (Ne.symm hij), array]

/-- A frame of a page that was not freed leaves all others freed as they are. -/
lemma array_insert_kept (k : CacheFile) (n i : ℕ) (f : Frame) (hfreed : f.freed = false)
    (hi : i ∉ k.freed) :
    array { k with next := n, frames := k.frames.insert i f } file size
      = ⟨n, k.freed, Function.update (k.array file size).page i f.bytes⟩ := by
  rw [array_insert, hfreed, if_neg Bool.false_ne_true, Finset.erase_eq_of_notMem hi]

/-- A page is in memory that has to be written. -/
def Waits (k : CacheFile) (i : ℕ) : Prop := ∃ f : Frame, k.frames[i]? = some f ∧ f.dirty = true

/-- An open cache that goes with its file. -/
structure Backed (k : CacheFile) (file : Bytes) (size : ℕ) : Prop where
  index_lt : ∀ {i : ℕ} {f : Frame}, k.frames[i]? = some f → i < k.next
  frame_size : ∀ {i : ℕ} {f : Frame}, k.frames[i]? = some f → f.bytes.size = size
  /-- What need not be written stands in the file. -/
  clean : ∀ {i : ℕ} {f : Frame}, k.frames[i]? = some f → f.dirty = false → f.bytes = Bytes.pageAt file size i
  /-- A page that need not be written is wholly in the file, unless it is the first one. -/
  whole : ∀ i, i ≠ 0 → i < k.next →
    i * size + size ≤ file.length ∨ k.Waits i
  /-- A part of a page at the end of the file is one of a page that has to be written. -/
  cut : size ∣ file.length ∨ k.Waits (file.length / size)
  /-- The file has no more pages than the cache, as far as these can be numbered. -/
  numbered : 0x100000000 * size ≤ file.length ∨ 0 < k.next ∧ file.length ≤ k.next * size
  next_le : k.next ≤ indexLimit

/-! ### Opening and loading -/

/-- The cache that a file is opened as. -/
def opening (path : String) (file : Bytes) (size : ℕ) : CacheFile :=
  { path, next := max (file.length / size) 1 % 0x100000000 }

/-- A file that is cut into whole pages goes with the cache it is opened as. -/
lemma backed_opened (hfile : size ∣ file.length) (path : String) :
    (opening path file size).Backed file size := by
  have hnone : ∀ {i : ℕ} {f : Frame}, (opening path file size).frames[i]? = some f → False := by
    intro i f h
    rw [show (opening path file size).frames = ∅ from rfl, Std.TreeMap.getElem?_emptyc] at h
    cases h
  have hlen : file.length / size * size = file.length := Nat.div_mul_cancel hfile
  have hnext : (opening path file size).next = max (file.length / size) 1 % 0x100000000 := rfl
  refine ⟨fun h => (hnone h).elim, fun h => (hnone h).elim, fun h => (hnone h).elim,
    fun i hi hlt => .inl ?_, .inl hfile, ?_, ?_⟩
  · have hlt' : i < file.length / size := by
      have := Nat.mod_le (max (file.length / size) 1) 0x100000000
      omega
    calc i * size + size = (i + 1) * size := by ring
      _ ≤ file.length / size * size := Nat.mul_le_mul_right _ hlt'
      _ = file.length := hlen
  · by_cases hmany : file.length / size < 0x100000000
    · rw [Nat.mod_eq_of_lt (by omega)] at hnext
      rw [hnext]
      exact .inr ⟨by simp, hlen.symm.le.trans (Nat.mul_le_mul_right _ (le_max_left _ _))⟩
    · exact .inl ((Nat.mul_le_mul_right _ (Nat.not_lt.mp hmany)).trans hlen.le)
  · rw [hnext, indexLimit]
    omega

/-- A cache that was just opened is the array of its file. -/
lemma array_opened (path : String) :
    (opening path file size).array file size = .ofFile file size := by
  rw [array, PageArray.ofFile]
  congr 1

namespace Backed

lemma succ_mul_le_iff (hsize : 0 < size) : i * size + size ≤ j ↔ i < j / size := by
  rw [← Nat.succ_mul, ← Nat.le_div_iff_mul_le hsize, Nat.succ_le_iff]

/-- A page that is not in memory is not cut by the end of the file. -/
lemma not_cut (h : k.Backed file size) (hsize : 0 < size) (hf : k.frames[i]? = none) :
    i * size + size ≤ file.length ∨ file.length ≤ i * size := by
  obtain hlt | rfl | hlt := lt_trichotomy i (file.length / size)
  · exact .inl ((succ_mul_le_iff hsize).mpr hlt)
  · obtain hfile | ⟨f, hf', -⟩ := h.cut
    · exact .inr (Nat.div_mul_cancel hfile).symm.le
    · rw [hf] at hf'
      cases hf'
  · exact .inr (Nat.div_lt_iff_lt_mul hsize |>.mp hlt).le

/-- What is known of the frames after one of them was put in its place. -/
lemma getElem?_insert (hg : (k.frames.insert i f)[j]? = some g) :
    j = i ∧ g = f ∨ j ≠ i ∧ k.frames[j]? = some g := by
  rw [Session.getElem?_insert_frame] at hg
  by_cases hij : i = j
  · rw [if_pos hij] at hg
    exact .inl ⟨hij.symm, (Option.some.inj hg).symm⟩
  · rw [if_neg hij] at hg
    exact .inr ⟨fun h => hij h.symm, hg⟩

/-- A page that has to be written afterwards is put into memory, behind the last one or in
place of another. -/
lemma change (h : k.Backed file size) {n : ℕ} (hn : k.next = n ∨ k.next + 1 = n ∧ i = k.next)
    (hnle : n ≤ indexLimit) (hi : i < n) (hfsize : f.bytes.size = size) (hdirty : f.dirty = true) :
    Backed { k with next := n, frames := k.frames.insert i f } file size := by
  have hle : k.next ≤ n := by omega
  have hself : (k.frames.insert i f)[i]? = some f := by
    rw [Session.getElem?_insert_frame, if_pos rfl]
  -- a page that had to be written still has to be
  have hstill : ∀ {j}, k.Waits j → Waits { k with frames := k.frames.insert i f } j := by
    rintro j ⟨g, hg, hgdirty⟩
    by_cases hij : i = j
    · exact ⟨f, hij ▸ hself, hdirty⟩
    · exact ⟨g, by rwa [Session.getElem?_insert_frame, if_neg hij], hgdirty⟩
  refine ⟨fun hg => ?_, fun hg => ?_, fun hg hclean => ?_, fun j hj hlt => ?_,
    h.cut.imp_right hstill, h.numbered.imp_right fun hlen => ⟨hlen.1.trans_le hle,
      hlen.2.trans (Nat.mul_le_mul_right _ hle)⟩, hnle⟩
  · obtain ⟨rfl, -⟩ | ⟨-, hg⟩ := getElem?_insert hg
    · exact hi
    · exact (h.index_lt hg).trans_le hle
  · obtain ⟨-, rfl⟩ | ⟨-, hg⟩ := getElem?_insert hg
    · exact hfsize
    · exact h.frame_size hg
  · obtain ⟨-, rfl⟩ | ⟨-, hg⟩ := getElem?_insert hg
    · rw [hdirty] at hclean
      cases hclean
    · exact h.clean hg hclean
  · by_cases hij : i = j
    · exact .inr ⟨f, hij ▸ hself, hdirty⟩
    · have hlt' : j < k.next := by
        have hlt : j < n := hlt
        omega
      exact (h.whole j hj hlt').imp_right hstill

/-- A page of the file is put into memory. -/
lemma load (h : k.Backed file size) (hnone : k.frames[i]? = none) (hi : i < k.next)
    (hf : f.bytes = Bytes.pageAt file size i) (hdirty : f.dirty = false) :
    Backed { k with frames := k.frames.insert i f } file size := by
  have hstill : ∀ {j}, k.Waits j → Waits { k with frames := k.frames.insert i f } j := by
    rintro j ⟨g, hg, hgdirty⟩
    refine ⟨g, ?_, hgdirty⟩
    rw [Session.getElem?_insert_frame, if_neg, hg]
    rintro rfl
    rw [hnone] at hg
    cases hg
  refine ⟨fun hg => ?_, fun hg => ?_, fun hg hclean => ?_,
    fun j hj hlt => (h.whole j hj hlt).imp_right hstill, h.cut.imp_right hstill, h.numbered, h.next_le⟩
  · obtain ⟨rfl, -⟩ | ⟨-, hg⟩ := getElem?_insert hg
    · exact hi
    · exact h.index_lt hg
  · obtain ⟨-, rfl⟩ | ⟨-, hg⟩ := getElem?_insert hg
    · rw [hf, Bytes.size_pageAt]
    · exact h.frame_size hg
  · obtain ⟨rfl, rfl⟩ | ⟨-, hg⟩ := getElem?_insert hg
    · exact hf
    · exact h.clean hg hclean

/-! ### Writing -/

/-- A beginning of a page reaches the file. The page still has to be written. -/
lemma write_part (h : k.Backed file size) (hsize : 0 < size) (hf : k.frames[i]? = some f)
    (hdirty : f.dirty = true) (n : ℕ) :
    k.Backed (file.overwrite (i * size) (f.bytes.bytes.take n)) size := by
  have hi := h.index_lt hf
  have hlen : (f.bytes.bytes.take n).length ≤ size := by
    rw [List.length_take, Page.length_bytes, h.frame_size hf]
    omega
  have hgrows := Bytes.length_le_overwrite file (i * size) (f.bytes.bytes.take n)
  have hlength := Bytes.length_overwrite file (i * size) (f.bytes.bytes.take n)
  refine ⟨h.index_lt, h.frame_size, fun {j g} hg hclean => ?_,
    fun j hj hlt => (h.whole j hj hlt).imp_left fun hle => hle.trans hgrows, ?_, ?_, h.next_le⟩
  · have hij : i ≠ j := by
      rintro rfl
      rw [hf] at hg
      cases hg
      rw [hdirty] at hclean
      cases hclean
    rw [Bytes.pageAt_overwrite_other hij hlen]
    exact h.clean hg hclean
  · rw [hlength]
    split
    · exact h.cut
    rename_i hsome
    have hpos := List.length_pos_iff.mpr hsome
    -- A file that ends inside the page that was begun is not cut into whole pages; the page that
    -- makes it so is the one that waits to be written.
    by_cases hle : i * size + (f.bytes.bytes.take n).length ≤ file.length
    · rw [max_eq_left hle]
      exact h.cut
    · rw [max_eq_right (by omega)]
      by_cases hfull : (f.bytes.bytes.take n).length = size
      · exact .inl ⟨i + 1, by rw [hfull]; ring⟩
      · refine .inr ⟨f, ?_, hdirty⟩
        rwa [Nat.mul_comm, Nat.mul_add_div hsize, Nat.div_eq_of_lt (by omega), Nat.add_zero]
  · rw [hlength]
    split
    · exact h.numbered
    have hle : i * size + size ≤ k.next * size := by
      rw [← Nat.succ_mul]
      exact Nat.mul_le_mul_right _ hi
    exact h.numbered.imp (fun hmany => by omega) fun hlen' => ⟨hlen'.1, by omega⟩

/-- A page reaches the file. -/
lemma write (h : k.Backed file size) (hsize : 0 < size) (hf : k.frames[i]? = some f) :
    Backed { k with frames := k.frames.insert i { f with dirty := false } }
      (file.overwrite (i * size) f.bytes.bytes) size := by
  have hi := h.index_lt hf
  have hfsize : f.bytes.size = size := h.frame_size hf
  have hbytes : f.bytes.bytes.length = size := by rw [Page.length_bytes, hfsize]
  have hsome : f.bytes.bytes ≠ [] := List.ne_nil_of_length_pos (by omega)
  have hlength : (file.overwrite (i * size) f.bytes.bytes).length
      = max file.length (i * size + size) := by
    rw [Bytes.length_overwrite, if_neg hsome, hbytes]
  -- the other pages that have to be written are the same as before
  have hstill : ∀ {j}, i ≠ j → k.Waits j →
      Waits { k with frames := k.frames.insert i { f with dirty := false } } j := by
    rintro j hij ⟨g, hg, hgdirty⟩
    exact ⟨g, by rwa [Session.getElem?_insert_frame, if_neg hij], hgdirty⟩
  refine ⟨fun hg => ?_, fun hg => ?_, fun {j g} hg hclean => ?_, fun j hj hlt => ?_, ?_, ?_,
    h.next_le⟩
  · obtain ⟨rfl, -⟩ | ⟨-, hg⟩ := getElem?_insert hg
    · exact hi
    · exact h.index_lt hg
  · obtain ⟨-, rfl⟩ | ⟨-, hg⟩ := getElem?_insert hg
    · exact hfsize
    · exact h.frame_size hg
  · obtain ⟨rfl, rfl⟩ | ⟨hij, hg⟩ := getElem?_insert hg
    · exact (Bytes.pageAt_overwrite_self hfsize file j).symm
    · rw [Bytes.pageAt_overwrite_other hij.symm hbytes.le]
      exact h.clean hg hclean
  · rw [hlength]
    by_cases hij : i = j
    · subst hij
      exact .inl (le_max_right _ _)
    · exact (h.whole j hj hlt).imp (fun hle => hle.trans (le_max_left _ _)) (hstill hij)
  · rw [hlength]
    by_cases hle : i * size + size ≤ file.length
    · rw [max_eq_left hle]
      refine h.cut.imp_right (hstill ?_)
      exact ((succ_mul_le_iff hsize).mp hle).ne
    · rw [max_eq_right (by omega)]
      exact .inl ⟨i + 1, by ring⟩
  · have hle : i * size + size ≤ k.next * size := by
      rw [← Nat.succ_mul]
      exact Nat.mul_le_mul_right _ hi
    rw [hlength]
    exact h.numbered.imp (fun hmany => by omega) fun hlen' => ⟨hlen'.1, max_le hlen'.2 hle⟩

/-! ### What stays -/

/-- A part of a page that reaches the file changes nothing that is read. -/
lemma array_write_part (h : k.Backed file size) (hf : k.frames[i]? = some f) (n : ℕ) :
    k.array (file.overwrite (i * size) (f.bytes.bytes.take n)) size = k.array file size := by
  have hlen : (f.bytes.bytes.take n).length ≤ size := by
    rw [List.length_take, Page.length_bytes, h.frame_size hf]
    omega
  rw [array, array]
  congr 1
  funext j
  by_cases hij : i = j
  · subst hij
    rw [hf]
    rfl
  · rw [Bytes.pageAt_overwrite_other hij hlen]

/-- A page that reaches the file is the same as before. -/
lemma array_write (h : k.Backed file size) (hf : k.frames[i]? = some f) :
    array { k with frames := k.frames.insert i { f with dirty := false } }
      (file.overwrite (i * size) f.bytes.bytes) size = k.array file size := by
  have hpart := h.array_write_part hf f.bytes.bytes.length
  rw [List.take_length] at hpart
  have hpage : (k.array file size).page i = f.bytes := page_of_frame hf
  rw [array_insert k k.next i { f with dirty := false }, hpart, ← hpage, Function.update_eq_self]
  cases hfreed : f.freed with
  | true =>
      have hin : i ∈ k.freed := mem_freed.mpr ⟨f, hf, hfreed⟩
      rw [if_pos rfl, Finset.insert_eq_self.mpr hin]
      rfl
  | false =>
      have hout : i ∉ k.freed := fun hin => by
        obtain ⟨g, hg, hgfreed⟩ := mem_freed.mp hin
        obtain rfl : f = g := Option.some.inj (hf.symm.trans hg)
        rw [hfreed] at hgfreed
        cases hgfreed
      rw [if_neg Bool.false_ne_true, Finset.erase_eq_of_notMem hout]
      rfl

/-- No page reaches further than the indexes. -/
lemma write_end (h : k.Backed file size) (hsize : 0 < size) (hf : k.frames[i]? = some f) {n : ℕ}
    (hn : n ≤ size) : i * size + n < 0x100000000 * size := by
  have hi : i + 1 ≤ indexLimit := (h.index_lt hf).trans_le h.next_le
  calc i * size + n ≤ (i + 1) * size := by
        rw [Nat.succ_mul]
        omega
    _ ≤ indexLimit * size := Nat.mul_le_mul_right _ hi
    _ < 0x100000000 * size := Nat.mul_lt_mul_of_pos_right (by decide) hsize

lemma freed_lt (h : k.Backed file size) (hi : i ∈ k.freed) : i < k.next := by
  obtain ⟨f, hf, -⟩ := mem_freed.mp hi
  exact h.index_lt hf

/-- A file that every page in memory was written to has all pages of the cache. -/
lemma ofFile_eq (h : k.Backed file size) (hsize : 0 < size)
    (hclean : ∀ (i : ℕ) (f : Frame), k.frames[i]? = some f → f.dirty = false) :
    size ∣ file.length ∧ (∀ i, (k.array file size).page i = Bytes.pageAt file size i) ∧
      (file.length < 0x100000000 * size → (PageArray.ofFile file size).count = k.next) := by
  have hnone : ∀ {i}, ¬ k.Waits i := by
    rintro i ⟨f, hf, hdirty⟩
    rw [hclean i f hf] at hdirty
    cases hdirty
  have hfile : size ∣ file.length := h.cut.resolve_right hnone
  refine ⟨hfile, fun i => ?_, fun hfew => ?_⟩
  · cases hf : k.frames[i]? with
    | none => exact page_of_none hf
    | some f => rw [page_of_frame hf, h.clean hf (hclean i f hf)]
  · obtain ⟨n, hn⟩ := hfile
    obtain ⟨hpos, hlen⟩ := h.numbered.resolve_left (Nat.not_le.mpr hfew)
    rw [hn, Nat.mul_comm size n] at hlen hfew
    have hle : n ≤ k.next := Nat.le_of_mul_le_mul_right hlen hsize
    have hlt : n < 0x100000000 := Nat.lt_of_mul_lt_mul_right hfew
    rw [PageArray.ofFile]
    simp only
    rw [hn, Nat.mul_div_cancel_left _ hsize, Nat.mod_eq_of_lt (by omega)]
    -- The last page of the cache was written, so the file reaches as far. A cache with one page
    -- may have no file behind it at all.
    obtain hone | hmore := Nat.lt_or_ge 1 k.next
    · have hlast := (h.whole (k.next - 1) (by omega) (by omega)).resolve_right hnone
      rw [succ_mul_le_iff hsize, hn, Nat.mul_div_cancel_left _ hsize] at hlast
      omega
    · omega

end Backed

end CacheFile

end PageCatalog
