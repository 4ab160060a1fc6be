import Mathlib.Tactic
import PageCatalog.Page
import PageCatalog.Proofs.Bytes

/-!
Regions of a page.

A page is read and changed in ranges of bytes. The bytes of a range are its
region, and all that later modules know of a change is which regions it leaves
alone and what it puts into the others.

* `Page.region`: the bytes of a range; `Page.slice_region` reads them.
* `region_splice_self`, `region_splice_part`, `region_splice_apart`: regions after
  new bytes were written.
* `region_slide_moved`, `region_slide_apart`: regions after a range was moved.
* `Page.SameOutside`: two pages that differ in one range only.
-/

namespace PageCatalog

namespace Page

@[simp] lemma size_zeros (size : ℕ) : (zeros size).size = size := by
  rw [← length_bytes, bytes_zeros, List.length_replicate]

/-- The bytes of a range, as far as it lies inside the page. -/
def region (p : Page) (off len : ℕ) : Bytes := (p.bytes.drop off).take len

/-- The byte at a place of a region. -/
lemma getElem?_region (p : Page) (off len i : ℕ) :
    (p.region off len)[i]? = if i < len then p.bytes[off + i]? else none := by
  rw [region, List.getElem?_take]
  split <;> simp

/-- A region cut in two. -/
lemma region_add (p : Page) (off m n : ℕ) :
    p.region off (m + n) = p.region off m ++ p.region (off + m) n := by
  rw [region, region, region, List.take_add, List.drop_drop]

/-- A region of one byte. -/
lemma region_one {p : Page} {off : ℕ} (h : off < p.size) : p.region off 1 = [p[off]] := by
  have hbytes : off < p.bytes.length := by simpa using h
  rw [region, List.drop_eq_getElem_cons hbytes]
  rfl

/-- Regions are equal if they are so byte by byte. -/
lemma region_congr {p q : Page} {a b len : ℕ}
    (h : ∀ i < len, p.bytes[a + i]? = q.bytes[b + i]?) : p.region a len = q.region b len := by
  refine List.ext_getElem? fun i => ?_
  rw [getElem?_region, getElem?_region]
  split
  · exact h i ‹_›
  · rfl

@[simp] lemma length_region (p : Page) (off len : ℕ) :
    (p.region off len).length = min len (p.size - off) := by
  simp [region]

/-- A region inside the page is as long as it says. -/
lemma length_region_of_le {p : Page} {off len : ℕ} (h : off + len ≤ p.size) :
    (p.region off len).length = len := by
  rw [length_region]
  omega

/-- A region inside another one. -/
lemma region_region {p q : Page} {a b len : ℕ} (h : p.region a len = q.region b len) {d n : ℕ}
    (hd : d + n ≤ len) : p.region (a + d) n = q.region (b + d) n := by
  refine region_congr fun i hi => ?_
  have hbyte := congrArg (·[d + i]?) h
  simp only [getElem?_region, if_pos (show d + i < len by omega)] at hbyte
  rw [Nat.add_assoc, Nat.add_assoc]
  exact hbyte

/-- Bytes inside the page are read. -/
lemma slice_region {p : Page} {off len : ℕ} (h : off + len ≤ p.size) :
    p.slice off len = .ok (p.region off len) := by
  rw [slice_eq, if_pos h, region]

/-- A number inside the page is read from its region. -/
lemma number_region {p : Page} {off width : ℕ} (h : off + width ≤ p.size) :
    p.number off width = .ok (Bytes.toNat (p.region off width)) := by
  rw [number, slice_region h]
  rfl

/-- A number of one byte. -/
lemma number_one {p : Page} {off : ℕ} (h : off < p.size) : p.number off 1 = .ok p[off].toNat := by
  rw [number_region (show off + 1 ≤ p.size from h), region_one h]
  simp [Bytes.toNat]

/-- A number that reaches over the end of the page is not read. -/
lemma number_outOfBounds {p : Page} {off width : ℕ} (h : p.size < off + width) :
    p.number off width = .error .outOfBounds := by
  rw [number, slice_eq, if_neg (by omega)]
  rfl

/-- An id inside the page is read from its region. -/
lemma pageId_region {p : Page} {off : ℕ} (h : off + 8 ≤ p.size) :
    p.pageId off = .ok (.ofNat (Bytes.toNat (p.region off 8))) := by
  rw [pageId, number_region h]
  rfl

/-! ### Writing -/

variable {p q : Page} {off : ℕ} {bs : Bytes}

/-- Bytes that fit into the page are written. -/
lemma exists_splice (p : Page) (off : ℕ) (bs : Bytes) (h : off + bs.length ≤ p.size) :
    ∃ q, p.splice off bs = .ok q :=
  ⟨p.overlay off bs, by rw [splice, if_pos h]⟩

/-- Bytes that reach over the end of the page are not written. -/
lemma splice_outOfBounds (h : p.size < off + bs.length) : p.splice off bs = .error .outOfBounds := by
  rw [splice, if_neg (by omega)]

/-- A region written over itself. -/
lemma splice_region {len : ℕ} (h : off + len ≤ p.size) :
    p.splice off (p.region off len) = .ok p := by
  have hlen := length_region_of_le h
  obtain ⟨q, hq⟩ := exists_splice p off (p.region off len) (by omega)
  have hbytes := (bytes_of_splice hq).2
  rw [hlen, region, List.append_assoc, ← List.drop_drop, List.take_append_drop,
    List.take_append_drop] at hbytes
  rw [hq, ← ofBytes_bytes q, hbytes, ofBytes_bytes]

/-- The byte at a place after a write. -/
lemma getElem?_splice (h : p.splice off bs = .ok q) (i : ℕ) :
    q.bytes[i]? = if off ≤ i ∧ i < off + bs.length then bs[i - off]? else p.bytes[i]? := by
  obtain ⟨hle, hq⟩ := bytes_of_splice h
  have hoff : (p.bytes.take off).length = off := by simp; omega
  rw [hq, List.append_assoc, List.getElem?_append, hoff]
  -- The page is now what lay before, the new bytes, and what lay behind; the place falls into one
  -- of the three.
  by_cases hlt : i < off
  · rw [if_pos hlt, if_neg (by omega), List.getElem?_take_of_lt hlt]
  · rw [if_neg hlt, List.getElem?_append]
    by_cases hin : i - off < bs.length
    · rw [if_pos hin, if_pos ⟨by omega, by omega⟩]
    · rw [if_neg hin, if_neg (by omega), List.getElem?_drop]
      congr 1
      omega

/-- Part of what was written. -/
lemma region_splice_part (h : p.splice off bs = .ok q) {a n : ℕ} (hn : a + n ≤ bs.length) :
    q.region (off + a) n = (bs.drop a).take n := by
  refine List.ext_getElem? fun i => ?_
  rw [getElem?_region, List.getElem?_take]
  split
  · rw [getElem?_splice h, if_pos ⟨by omega, by omega⟩, List.getElem?_drop]
    congr 1
    omega
  · rfl

/-- What was written is there. -/
lemma region_splice_self (h : p.splice off bs = .ok q) : q.region off bs.length = bs := by
  have := region_splice_part h (a := 0) (n := bs.length) (by omega)
  simpa using this

/-- A write leaves alone what lies before and behind it. -/
lemma region_splice_apart (h : p.splice off bs = .ok q) {a n : ℕ}
    (hapart : a + n ≤ off ∨ off + bs.length ≤ a) : q.region a n = p.region a n := by
  refine region_congr fun i hi => ?_
  rw [getElem?_splice h, if_neg (by omega)]

/-- A region of which the front was written over. -/
lemma region_splice_front (h : p.splice off bs = .ok q) {n : ℕ} (hn : bs.length ≤ n) :
    q.region off n = bs ++ (p.region off n).drop bs.length := by
  have hlen : (p.region off bs.length).length = bs.length :=
    length_region_of_le (bytes_of_splice h).1
  obtain ⟨k, rfl⟩ := Nat.exists_eq_add_of_le hn
  rw [region_add, region_add, region_splice_self h, region_splice_apart h (.inr le_rfl),
    List.drop_left' hlen]

/-! ### Moving -/

variable {start stop target : ℕ}

/-- A range inside the page is moved to a place where it fits. -/
lemma exists_slide (p : Page) (start stop target : ℕ) (h₁ : start ≤ stop) (h₂ : stop ≤ p.size)
    (h₃ : target + (stop - start) ≤ p.size) : ∃ q, p.slide start stop target = .ok q := by
  rw [slide, if_pos ⟨h₁, h₂, h₃⟩]
  exact ⟨_, rfl⟩

/-- The byte at a place after a range was moved. -/
lemma getElem?_slide (h : p.slide start stop target = .ok q) (i : ℕ) :
    q.bytes[i]? = if target ≤ i ∧ i < target + (stop - start) then p.bytes[start + (i - target)]?
      else p.bytes[i]? := by
  obtain ⟨⟨h₁, h₂, h₃⟩, hq⟩ := bytes_of_slide h
  have htarget : (p.bytes.take target).length = target := by simp; omega
  have hmoved : ((p.bytes.drop start).take (stop - start)).length = stop - start := by simp; omega
  rw [hq, List.append_assoc, List.getElem?_append, htarget]
  -- As for a write, with the moved range as the new bytes.
  by_cases hlt : i < target
  · rw [if_pos hlt, if_neg (by omega), List.getElem?_take_of_lt hlt]
  · rw [if_neg hlt, List.getElem?_append, hmoved]
    by_cases hin : i - target < stop - start
    · rw [if_pos hin, if_pos ⟨by omega, by omega⟩, List.getElem?_take_of_lt hin,
        List.getElem?_drop]
    · rw [if_neg hin, if_neg (by omega), List.getElem?_drop]
      congr 1
      omega

/-- A region inside the moved range is found at its new place. -/
lemma region_slide_moved (h : p.slide start stop target = .ok q) {d n : ℕ}
    (hd : d + n ≤ stop - start) : q.region (target + d) n = p.region (start + d) n := by
  refine region_congr fun i hi => ?_
  rw [getElem?_slide h, if_pos ⟨by omega, by omega⟩]
  congr 1
  omega

/-- A move leaves alone what lies before and behind its target. -/
lemma region_slide_apart (h : p.slide start stop target = .ok q) {a n : ℕ}
    (hapart : a + n ≤ target ∨ target + (stop - start) ≤ a) : q.region a n = p.region a n := by
  refine region_congr fun i hi => ?_
  rw [getElem?_slide h, if_neg (by omega)]

/-! ### Numbers and ids in regions -/

/-- A number that was written stands there byte by byte. -/
lemma region_setNumber {width n : ℕ} (h : p.setNumber off width n = .ok q) :
    q.region off width = Bytes.ofNat width n := by
  have := region_splice_self h
  rwa [Bytes.length_ofNat] at this

/-- A written number is read back, if it fits. -/
lemma number_setNumber {width n : ℕ} (h : p.setNumber off width n = .ok q)
    (hn : n < 256 ^ width) : q.number off width = .ok n := by
  have hle := (bytes_of_splice h).1
  rw [Bytes.length_ofNat] at hle
  rw [number_region (by rw [size_of_splice h]; exact hle), region_setNumber h, Bytes.toNat_ofNat,
    Nat.mod_eq_of_lt hn]

/-- An id whose bytes are there is read. -/
lemma pageId_of_region {id : PageId} (hle : off + 8 ≤ q.size)
    (h : q.region off 8 = Bytes.ofNat 8 id.toNat) : q.pageId off = .ok id := by
  have hlt : id.toNat < 256 ^ 8 := id.word.toNat_lt
  rw [pageId_region hle, h, Bytes.toNat_ofNat, Nat.mod_eq_of_lt hlt]
  simp [PageId.ofNat, PageId.toNat]

/-- An id that is read is the one whose bytes are there. -/
lemma region_of_pageId {id : PageId} (hle : off + 8 ≤ p.size) (h : p.pageId off = .ok id) :
    p.region off 8 = Bytes.ofNat 8 id.toNat := by
  have hlen := length_region_of_le hle
  have hdigits := Bytes.ofNat_toNat (p.region off 8)
  have hlt := Bytes.toNat_lt (p.region off 8)
  rw [hlen] at hdigits hlt
  rw [pageId_region hle] at h
  cases h
  rw [PageId.toNat, PageId.ofNat, UInt64.toNat_ofNat_of_lt' hlt, hdigits]

/-- An id that was written is read back. -/
lemma pageId_setPageId {id : PageId} (h : p.setPageId off id = .ok q) :
    q.pageId off = .ok id := by
  have hle := (bytes_of_splice h).1
  rw [Bytes.length_ofNat] at hle
  exact pageId_of_region (by rw [size_of_splice h]; exact hle) (region_setNumber h)

/-! ### Changes within a range -/

/-- The second page differs from the first one between two places only. -/
structure SameOutside (lo hi : ℕ) (p q : Page) : Prop where
  size : q.size = p.size
  region : ∀ {a n : ℕ}, a + n ≤ lo ∨ hi ≤ a → q.region a n = p.region a n

/-- Less may be said to be the same. -/
lemma SameOutside.mono {lo hi lo' hi' : ℕ} (h : SameOutside lo hi p q) (hlo : lo' ≤ lo)
    (hhi : hi ≤ hi') : SameOutside lo' hi' p q :=
  ⟨h.size, fun hapart => h.region (by omega)⟩

/-- Two changes within the same range. -/
lemma SameOutside.trans {lo hi : ℕ} {r : Page} (h : SameOutside lo hi p q)
    (h' : SameOutside lo hi q r) : SameOutside lo hi p r :=
  ⟨h'.size.trans h.size, fun hapart => (h'.region hapart).trans (h.region hapart)⟩

/-- A number outside the range reads as before. -/
lemma SameOutside.number {lo hi a width : ℕ} (h : SameOutside lo hi p q)
    (hapart : a + width ≤ lo ∨ hi ≤ a) : q.number a width = p.number a width := by
  rw [Page.number, Page.number, slice_eq, slice_eq, h.size]
  split
  · exact congrArg (fun bs => Except.map Bytes.toNat (.ok bs)) (h.region hapart)
  · rfl

/-- An id outside the range reads as before. -/
lemma SameOutside.pageId {lo hi a : ℕ} (h : SameOutside lo hi p q)
    (hapart : a + 8 ≤ lo ∨ hi ≤ a) : q.pageId a = p.pageId a := by
  rw [Page.pageId, Page.pageId, h.number hapart]

/-- Writing changes the range that is written. -/
lemma sameOutside_splice (h : p.splice off bs = .ok q) :
    SameOutside off (off + bs.length) p q :=
  ⟨size_of_splice h, fun hapart => region_splice_apart h hapart⟩

/-- Moving changes the range that is moved to. -/
lemma sameOutside_slide (h : p.slide start stop target = .ok q) :
    SameOutside target (target + (stop - start)) p q :=
  ⟨size_of_slide h, fun hapart => region_slide_apart h hapart⟩

end Page

end PageCatalog
