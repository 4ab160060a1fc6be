import Mathlib.Tactic
import PageCatalog.RowFormat
import PageCatalog.Proofs.Computation
import PageCatalog.Proofs.Page.Region

/-!
The parts of a node page, and what the steps on a page do to them.

A node page falls into its header, its slots and, behind the last slot, its links.
Each step on a page writes into a part of its own; what it leaves alone is given as a
range (`Page.SameOutside`), and what it puts there slot by slot or link by link.

* `NodeLayout.offset_mono`, `offset_capacity_le`, `linkOffset_le`: the parts do not
  overlap and lie inside the page.
* `Node.Head`: what the header of a node says; `exists_init`, `exists_setCount`.
* `exists_openSlot`, `exists_closeSlot`: slots that move by one place.
* `exists_setLink`, `exists_insertLink`, `exists_removeLink`: links.
-/

namespace PageCatalog

namespace NodeLayout

variable (L : NodeLayout) {i j size : ℕ}

/-! ### Places -/

/-- The next slot stands right behind. -/
lemma offset_succ (i : ℕ) : L.offset (i + 1) = L.offset i + L.width := by
  rw [offset, offset, Nat.succ_mul, Nat.add_assoc]

lemma offset_mono (h : i ≤ j) : L.offset i ≤ L.offset j :=
  Nat.add_le_add_left (Nat.mul_le_mul_right _ h) _

/-- A slot ends where a later one begins, or before. -/
lemma offset_lt (h : i < j) : L.offset i + L.width ≤ L.offset j := by
  rw [← offset_succ]
  exact L.offset_mono h

lemma header_le_offset (i : ℕ) : 16 ≤ L.offset i := Nat.le_add_right _ _

/-- All slots lie inside the page. -/
lemma offset_capacity_le (hsize : 24 ≤ size) : L.offset (L.capacity size) ≤ size := by
  rw [offset, capacity, Node.headerSize, Node.linkSize]
  split
  · have := Nat.div_mul_le_self (size - 16) L.width
    omega
  · have h := Nat.div_mul_le_self (size - 16 - 8) (L.width + 8)
    rw [Nat.mul_add] at h
    omega

/-- A slot below the capacity lies inside the page, whatever the size of the page. -/
lemma offset_succ_le (hi : i < L.capacity size) : L.offset (i + 1) ≤ size := by
  replace hi : i + 1 ≤ L.capacity size := hi
  rw [capacity, Node.headerSize, Node.linkSize] at hi
  rw [offset, Node.headerSize]
  split at hi
  · have hwidth : 0 < L.width := by
      by_contra hzero
      rw [Nat.eq_zero_of_not_pos hzero, Nat.div_zero] at hi
      omega
    have hslots := (Nat.le_div_iff_mul_le hwidth).mp hi
    have hpos : 0 < (i + 1) * L.width := Nat.mul_pos i.succ_pos hwidth
    omega
  · have hslots := (Nat.le_div_iff_mul_le (by omega)).mp hi
    rw [Nat.mul_add] at hslots
    omega

lemma linkOffset_eq (size i : ℕ) : L.linkOffset size i = L.offset (L.capacity size) + i * 8 := rfl

lemma linkOffset_succ (i : ℕ) : L.linkOffset size (i + 1) = L.linkOffset size i + 8 := by
  rw [linkOffset_eq, linkOffset_eq]
  omega

/-- The slots end where the links begin, or before. -/
lemma offset_le_linkOffset (h : i ≤ L.capacity size) : L.offset i ≤ L.linkOffset size j :=
  (L.offset_mono h).trans (Nat.le_add_right _ _)

/-- All links lie inside the page: there is room for one more than there are slots. -/
lemma linkOffset_le (hinner : L.isLeaf = false) (hsize : 24 ≤ size)
    (h : i ≤ L.capacity size + 1) : L.linkOffset size i ≤ size := by
  rw [linkOffset_eq, offset, Node.headerSize]
  have hcapacity : L.capacity size * (L.width + 8) ≤ size - 16 - 8 := by
    rw [capacity, if_neg (by simp [hinner]), Node.headerSize, Node.linkSize]
    exact Nat.div_mul_le_self _ _
  rw [Nat.mul_add] at hcapacity
  omega

/-- As many keys as fit into a page can be counted in two bytes. -/
lemma capacity_lt (hsize : size ≤ 65536) : L.capacity size < 256 ^ 2 := by
  have hleaf : (size - 16) / L.width ≤ size - 16 := Nat.div_le_self _ _
  have hinner : (size - 16 - 8) / (L.width + 8) ≤ size - 16 - 8 := Nat.div_le_self _ _
  rw [capacity, Node.headerSize, Node.linkSize]
  split <;> · simp only [Nat.reducePow]; omega

end NodeLayout

namespace Node

variable {L : NodeLayout} {id : PageId} {n i lo hi : ℕ} {p q : Page}

/-! ### The header -/

/-- What the header of a node says: its kind, a known version, its own id and the
number of its keys. -/
structure Head (L : NodeLayout) (id : PageId) (n : ℕ) (p : Page) : Prop where
  tag : Node.tag p = .ok L.tag
  version : ∃ v, Node.version p = .ok v ∧ 1 ≤ v ∧ v ≤ L.latest
  count : Node.count p = .ok n
  self : Node.self p = .ok id

/-- A change behind the header leaves it. -/
lemma Head.of_sameOutside (h : Head L id n p) (hsame : p.SameOutside lo hi q) (hlo : 16 ≤ lo) :
    Head L id n q := by
  obtain ⟨v, hv, hknown⟩ := h.version
  refine ⟨?_, ⟨v, ?_, hknown⟩, ?_, ?_⟩
  · exact (hsame.number (.inl (by omega))).trans h.tag
  · exact (hsame.number (.inl (by omega))).trans hv
  · exact (hsame.number (.inl (by omega))).trans h.count
  · exact (hsame.pageId (.inl (by omega))).trans h.self

/-- The number of keys is written, and the rest of the header stays. -/
lemma exists_setCount (h : Head L id n p) {m : ℕ} (hm : m < 256 ^ 2) (hsize : 24 ≤ p.size) :
    ∃ q, setCount m p = (.ok (), q) ∧ p.SameOutside 4 6 q ∧ Head L id m q := by
  obtain ⟨q, hq⟩ := Page.exists_splice p 4 (Bytes.ofNat 2 m)
    (by rw [Bytes.length_ofNat]; omega)
  have hsame : p.SameOutside 4 6 q := by
    have := Page.sameOutside_splice hq
    rwa [Bytes.length_ofNat] at this
  obtain ⟨v, hv, hknown⟩ := h.version
  refine ⟨q, PageM.change_ok hq, hsame, ?_, ⟨v, ?_, hknown⟩, ?_, ?_⟩
  · exact (hsame.number (.inl (by omega))).trans h.tag
  · exact (hsame.number (.inl (by omega))).trans hv
  · exact Page.number_setNumber hq hm
  · exact (hsame.pageId (.inr (by omega))).trans h.self

/-- A new node writes its header and nothing else. -/
lemma exists_init (id : PageId) (htag : L.tag < 256 ^ 2)
    (hlatest : 1 ≤ L.latest ∧ L.latest < 256 ^ 2) (hsize : 24 ≤ p.size) :
    ∃ q, init L id p = (.ok (), q) ∧ p.SameOutside 0 16 q ∧ Head L id 0 q := by
  set bs := Bytes.ofNat 2 L.tag ++ Bytes.ofNat 2 L.latest ++ Bytes.ofNat 2 0 ++ Bytes.ofNat 2 0
    ++ Bytes.ofNat 8 id.toNat with hbs
  have hlen : bs.length = 16 := by simp [hbs]
  obtain ⟨q, hq⟩ := Page.exists_splice p 0 bs (by omega)
  have hqsize := Page.size_of_splice hq
  have hsame := Page.sameOutside_splice hq
  rw [hlen] at hsame
  have hnumber : ∀ {a m : ℕ}, a + 2 ≤ 16 → m < 256 ^ 2 → (bs.drop a).take 2 = Bytes.ofNat 2 m →
      q.number a 2 = .ok m := by
    intro a m ha hm hpart
    have hregion := Page.region_splice_part hq (a := a) (n := 2) (by omega)
    rw [Nat.zero_add, hpart] at hregion
    rw [Page.number_region (by omega), hregion, Bytes.toNat_ofNat, Nat.mod_eq_of_lt hm]
  refine ⟨q, PageM.change_ok hq, hsame, ?_, ⟨L.latest, ?_, hlatest.1, le_rfl⟩, ?_, ?_⟩
  · exact hnumber (by omega) htag (by simp [hbs, List.append_assoc])
  · exact hnumber (by omega) hlatest.2 (by simp [hbs, List.append_assoc])
  · refine hnumber (a := 4) (by omega) (by decide) ?_
    rw [hbs, List.append_assoc, List.append_assoc, List.drop_left' (by simp)]
    simp
  · refine Page.pageId_of_region (by omega) ?_
    have hregion := Page.region_splice_part hq (a := 8) (n := 8) (by omega)
    rw [Nat.zero_add] at hregion
    rw [hregion, hbs, List.drop_left' (by simp)]
    simp

/-! ### Slots -/

/-- Making room moves the slots from `i` on one place up. -/
lemma exists_openSlot (hi : i ≤ n) (hn : L.offset (n + 1) ≤ p.size) :
    ∃ q, openSlot L i n p = (.ok (), q) ∧ p.SameOutside (L.offset (i + 1)) (L.offset (n + 1)) q ∧
      ∀ j, i ≤ j → j < n →
        q.region (L.offset (j + 1)) L.width = p.region (L.offset j) L.width := by
  have hin := L.offset_mono hi
  have hi' := L.offset_succ i
  have hn' := L.offset_succ n
  obtain ⟨q, hq⟩ := Page.exists_slide p (L.offset i) (L.offset n) (L.offset (i + 1)) hin
    (by omega) (by omega)
  refine ⟨q, PageM.change_ok hq, (Page.sameOutside_slide hq).mono le_rfl (by omega), ?_⟩
  intro j hij hjn
  have hj := L.offset_mono hij
  have hj' := L.offset_lt hjn
  have hmoved := Page.region_slide_moved hq (d := L.offset j - L.offset i) (n := L.width) (by omega)
  have hj'' := L.offset_succ j
  rwa [show L.offset (i + 1) + (L.offset j - L.offset i) = L.offset (j + 1) by omega,
    show L.offset i + (L.offset j - L.offset i) = L.offset j by omega] at hmoved

/-- Closing slot `i` moves the slots behind it one place down. -/
lemma exists_closeSlot (hi : i < n) (hn : L.offset n ≤ p.size) :
    ∃ q, closeSlot L i n p = (.ok (), q) ∧ p.SameOutside (L.offset i) (L.offset n) q ∧
      ∀ j, i ≤ j → j + 1 < n →
        q.region (L.offset j) L.width = p.region (L.offset (j + 1)) L.width := by
  have hin := L.offset_lt hi
  have hi' := L.offset_succ i
  obtain ⟨q, hq⟩ := Page.exists_slide p (L.offset (i + 1)) (L.offset n) (L.offset i) (by omega) hn
    (by omega)
  refine ⟨q, PageM.change_ok hq, (Page.sameOutside_slide hq).mono le_rfl (by omega), ?_⟩
  intro j hij hjn
  have hj := L.offset_mono hij
  have hj' := L.offset_lt hjn
  have hj'' := L.offset_succ j
  have hmoved := Page.region_slide_moved hq (d := L.offset j - L.offset i) (n := L.width) (by omega)
  rwa [show L.offset i + (L.offset j - L.offset i) = L.offset j by omega,
    show L.offset (i + 1) + (L.offset j - L.offset i) = L.offset (j + 1) by omega] at hmoved

/-! ### Links -/

/-- Links outside the changed range read as before. -/
lemma link_of_sameOutside (hsame : p.SameOutside lo hi q)
    (hapart : L.linkOffset p.size (i + 1) ≤ lo ∨ hi ≤ L.linkOffset p.size i) :
    link L i q = link L i p := by
  rw [L.linkOffset_succ] at hapart
  rw [link, link, hsame.size]
  exact hsame.pageId hapart

/-- A link is written inside the page and read back. -/
lemma exists_setLink (id : PageId) (hi : L.linkOffset p.size (i + 1) ≤ p.size) :
    ∃ q, setLink L i id p = (.ok (), q) ∧
      p.SameOutside (L.linkOffset p.size i) (L.linkOffset p.size (i + 1)) q ∧
      link L i q = .ok id := by
  rw [L.linkOffset_succ] at hi ⊢
  obtain ⟨q, hq⟩ := Page.exists_splice p (L.linkOffset p.size i) (Bytes.ofNat 8 id.toNat)
    (by rw [Bytes.length_ofNat]; omega)
  have hsame := Page.sameOutside_splice hq
  rw [Bytes.length_ofNat] at hsame
  refine ⟨q, PageM.change_ok hq, hsame, ?_⟩
  rw [link, hsame.size]
  exact Page.pageId_setPageId hq

/-- Links that were moved read as before at their new place. -/
lemma link_of_region {a b : ℕ} (hsize : q.size = p.size) (ha : L.linkOffset p.size (a + 1) ≤ p.size)
    (hb : L.linkOffset p.size (b + 1) ≤ p.size)
    (h : q.region (L.linkOffset p.size a) 8 = p.region (L.linkOffset p.size b) 8) :
    link L a q = link L b p := by
  rw [L.linkOffset_succ] at ha hb
  rw [link, link, hsize, Page.pageId_region (by omega), Page.pageId_region (by omega), h]

/-- Putting a link in moves the links from its position on one place up. -/
lemma exists_insertLink (id : PageId) (hi : i ≤ n)
    (hn : L.linkOffset p.size (n + 1) ≤ p.size) :
    ∃ q, insertLink L i n id p = (.ok (), q) ∧
      p.SameOutside (L.linkOffset p.size i) (L.linkOffset p.size (n + 1)) q ∧
      link L i q = .ok id ∧ ∀ j, i ≤ j → j < n → link L (j + 1) q = link L j p := by
  have heq := L.linkOffset_eq p.size
  obtain ⟨r, hr⟩ := Page.exists_slide p (L.linkOffset p.size i) (L.linkOffset p.size n)
    (L.linkOffset p.size i + 8)
    (by rw [heq, heq]; omega) (by rw [heq] at hn ⊢; omega) (by rw [heq] at hn; rw [heq, heq]; omega)
  have hsame := Page.sameOutside_slide hr
  obtain ⟨q, hq, hsame', hlink⟩ := exists_setLink (L := L) (p := r) (i := i) id
    (by rw [hsame.size, heq]; rw [heq] at hn; omega)
  rw [hsame.size] at hsame'
  refine ⟨q, ?_, ?_, hlink, ?_⟩
  · rw [insertLink, run_bind_ok (PageM.change_ok hr)]
    exact hq
  · refine (hsame.mono ?_ ?_).trans (hsame'.mono le_rfl ?_) <;> simp only [heq] <;> omega
  · intro j hij hjn
    rw [link_of_sameOutside hsame' (.inr (by rw [hsame.size]; simp only [heq]; omega))]
    refine link_of_region hsame.size (by rw [heq] at hn ⊢; omega) (by rw [heq] at hn ⊢; omega) ?_
    have hmoved := Page.region_slide_moved hr (d := (j - i) * 8) (n := 8)
      (by simp only [heq]; omega)
    rwa [show L.linkOffset p.size i + 8 + (j - i) * 8 = L.linkOffset p.size (j + 1) by
        simp only [heq]; omega,
      show L.linkOffset p.size i + (j - i) * 8 = L.linkOffset p.size j by
        simp only [heq]; omega] at hmoved

/-- Taking a link out moves the links behind it one place down. -/
lemma exists_removeLink (hi : i < n) (hn : L.linkOffset p.size n ≤ p.size) :
    ∃ q, removeLink L i n p = (.ok (), q) ∧
      p.SameOutside (L.linkOffset p.size i) (L.linkOffset p.size n) q ∧
      ∀ j, i ≤ j → j + 1 < n → link L j q = link L (j + 1) p := by
  have heq := L.linkOffset_eq p.size
  obtain ⟨q, hq⟩ := Page.exists_slide p (L.linkOffset p.size i + 8) (L.linkOffset p.size n)
    (L.linkOffset p.size i)
    (by simp only [heq]; omega) hn (by simp only [heq] at hn ⊢; omega)
  refine ⟨q, PageM.change_ok hq, (Page.sameOutside_slide hq).mono le_rfl ?_, ?_⟩
  · simp only [heq]
    omega
  · intro j hij hjn
    refine link_of_region (Page.size_of_slide hq) (by rw [heq] at hn ⊢; omega)
      (by rw [heq] at hn ⊢; omega) ?_
    have hmoved := Page.region_slide_moved hq (d := (j - i) * 8) (n := 8)
      (by simp only [heq]; omega)
    rwa [show L.linkOffset p.size i + (j - i) * 8 = L.linkOffset p.size j by
        simp only [heq]; omega,
      show L.linkOffset p.size i + 8 + (j - i) * 8 = L.linkOffset p.size (j + 1) by
        simp only [heq]; omega] at hmoved

end Node

end PageCatalog
