import Mathlib.Tactic
import PageCatalog.Proofs.Node.Slots

/-!
The slots and the links of a page as lists.

Whatever the bytes of a page are, its slots are a list of strings of bytes and its links a
list of ids. The two lists have their own places in every page with room for one key. Making
room for a slot and writing it, closing a slot, and the steps on links are insertions into
these lists and removals from them, and a step on one list leaves the other alone.

* `Node.slots`, `Node.links`: the lists.
* `NodeLayout.Separates`: the places of the two lists.
* `Node.KeepsLinks`, `Node.KeepsSlots`: what a step on one list leaves alone.
* `slots_openSlot`, `slots_closeSlot`, `links_insertLink`, `links_removeLink`: one step each.
* `Node.listSteps_of_hasRoom`: all of them.
-/

namespace PageCatalog

/-! ### The places of slots and links -/

namespace NodeLayout

variable {L : NodeLayout} {size : ℕ}

/-- A page has room for one key: behind the header, for one slot and, in an inner node, for
the two links beside it. -/
def HasRoom (L : NodeLayout) (size : ℕ) : Prop :=
  Node.headerSize + L.width + (if L.isLeaf then 0 else 2 * Node.linkSize) ≤ size

instance (L : NodeLayout) (size : ℕ) : Decidable (L.HasRoom size) :=
  inferInstanceAs (Decidable (_ ≤ _))

/-- The slots, and in an inner node the links, lie inside the page behind the header and do
not overlap. -/
structure Separates (L : NodeLayout) (size : ℕ) : Prop where
  capacity_pos : 0 < L.capacity size
  slot_inside : ∀ i < L.capacity size,
    Node.headerSize ≤ L.offset i ∧ L.offset i + L.width ≤ size
  slots_apart : ∀ i j, i < j → L.offset i + L.width ≤ L.offset j
  link_inside : L.isLeaf = false → ∀ i < L.capacity size + 1,
    Node.headerSize ≤ L.linkOffset size i ∧ L.linkOffset size i + Node.linkSize ≤ size
  links_apart : ∀ i j, i < j → L.linkOffset size i + Node.linkSize ≤ L.linkOffset size j
  slot_before_link : ∀ i < L.capacity size, ∀ j, L.offset i + L.width ≤ L.linkOffset size j

/-- A page with room for one key has a capacity that says so. -/
lemma HasRoom.capacity_pos (h : L.HasRoom size) (hwidth : 0 < L.width) : 0 < L.capacity size := by
  rw [HasRoom, Node.headerSize, Node.linkSize] at h
  rw [capacity, Node.headerSize, Node.linkSize]
  split at h
  · rw [if_pos ‹_›]
    exact Nat.div_pos (by omega) hwidth
  · rw [if_neg ‹_›]
    exact Nat.div_pos (by omega) (by omega)

/-- All links of a node end inside its page. -/
lemma HasRoom.linkOffset_le (h : L.HasRoom size) (hinner : L.isLeaf = false) {i : ℕ}
    (hi : i ≤ L.capacity size + 1) : L.linkOffset size i ≤ size := by
  rw [HasRoom, Node.headerSize, Node.linkSize, if_neg (by simp [hinner])] at h
  exact L.linkOffset_le hinner (by omega) hi

/-- Where there is room for a key, slots and links keep to places of their own. -/
lemma HasRoom.separates (h : L.HasRoom size) (hwidth : 0 < L.width) : L.Separates size where
  capacity_pos := h.capacity_pos hwidth
  slot_inside i hi := by
    rw [← L.offset_succ]
    exact ⟨L.header_le_offset i, L.offset_succ_le hi⟩
  slots_apart i j hij := L.offset_lt hij
  link_inside hinner i hi := by
    rw [Node.linkSize, ← L.linkOffset_succ]
    exact ⟨(L.header_le_offset _).trans (L.offset_le_linkOffset le_rfl), h.linkOffset_le hinner hi⟩
  links_apart i j hij := by
    rw [Node.linkSize, L.linkOffset_eq, L.linkOffset_eq]
    omega
  slot_before_link i hi j := by
    rw [← L.offset_succ]
    exact L.offset_le_linkOffset hi

end NodeLayout

namespace Node

variable {L : NodeLayout} {p q : Page} {lo up i n : ℕ}

/-! ### The lists -/

/-- The bytes of a slot. -/
def slot (L : NodeLayout) (i : ℕ) (p : Page) : Bytes := p.region (L.offset i) L.width

/-- The first slots of a page. -/
def slots (L : NodeLayout) (n : ℕ) (p : Page) : List Bytes :=
  (List.range n).map fun i => slot L i p

/-- The first links of a page. -/
def links (L : NodeLayout) (n : ℕ) (p : Page) : Except Failure (List PageId) :=
  (List.range n).mapM fun i => link L i p

@[simp] lemma length_slots (L : NodeLayout) (n : ℕ) (p : Page) : (slots L n p).length = n := by
  simp [slots]

lemma slot_of_getElem? {bs : Bytes} (h : (slots L n p)[i]? = some bs) : slot L i p = bs := by
  rw [slots, List.getElem?_map] at h
  obtain ⟨j, hj, rfl⟩ := Option.map_eq_some_iff.mp h
  obtain ⟨-, rfl⟩ := List.getElem?_eq_some_iff.mp hj
  rw [List.getElem_range]

/-- Slots that hold a list are that list. -/
lemma slots_eq {old : List Bytes} (hlen : old.length = n)
    (h : ∀ i bs, old[i]? = some bs → slot L i p = bs) : slots L n p = old :=
  List.ext_getElem (by simp [hlen]) fun i _ hi => by
    simpa [slots] using h i _ (List.getElem?_eq_getElem hi)

lemma LinksHold.links_eq {ids : List PageId} (h : LinksHold L ids p) :
    links L ids.length p = .ok ids :=
  range_mapM h

/-- The links that lie inside a page can be read. -/
lemma exists_linksHold (hn : L.linkOffset p.size n ≤ p.size) :
    ∃ ids : List PageId, ids.length = n ∧ LinksHold L ids p := by
  refine ⟨(List.range n).map fun i => .ofNat (Bytes.toNat (p.region (L.linkOffset p.size i) 8)),
    by simp, fun i id hid => ?_⟩
  rw [List.getElem?_map] at hid
  obtain ⟨j, hj, rfl⟩ := Option.map_eq_some_iff.mp hid
  obtain ⟨hi, rfl⟩ := List.getElem?_eq_some_iff.mp hj
  rw [List.length_range] at hi
  rw [List.getElem_range, link]
  exact Page.pageId_region (by simp only [L.linkOffset_eq] at hn ⊢; omega)

/-- A step on the slots leaves the header and the links alone. -/
structure KeepsLinks (L : NodeLayout) (p q : Page) : Prop where
  size : q.size = p.size
  header : q.region 0 headerSize = p.region 0 headerSize
  link : ∀ i, link L i q = link L i p

/-- A step on the links leaves the header and the slots alone. -/
structure KeepsSlots (L : NodeLayout) (p q : Page) : Prop where
  size : q.size = p.size
  header : q.region 0 headerSize = p.region 0 headerSize
  slot : ∀ i < L.capacity p.size, slot L i q = slot L i p

/-- A change between the header and the links. -/
lemma KeepsLinks.of_sameOutside (hsame : p.SameOutside lo up q) (hlo : L.offset i ≤ lo)
    (hup : up ≤ L.offset (L.capacity p.size)) : KeepsLinks L p q where
  size := hsame.size
  header := hsame.region (.inl (by rw [Nat.zero_add]; exact (L.header_le_offset i).trans hlo))
  link i := link_of_sameOutside hsame (.inr (hup.trans (L.offset_le_linkOffset le_rfl)))

/-- A change behind the slots. -/
lemma KeepsSlots.of_sameOutside (hsame : p.SameOutside (L.linkOffset p.size i) up q) :
    KeepsSlots L p q where
  size := hsame.size
  header := hsame.region (.inl (by
    rw [Nat.zero_add]
    exact (L.header_le_offset _).trans (L.offset_le_linkOffset le_rfl)))
  slot j hj := hsame.region (.inl (by
    rw [← L.offset_succ]
    exact L.offset_le_linkOffset hj))

/-- A slot outside the changed range. -/
lemma slot_of_sameOutside (hsame : p.SameOutside lo up q)
    (hapart : L.offset (i + 1) ≤ lo ∨ up ≤ L.offset i) : slot L i q = slot L i p := by
  rw [L.offset_succ] at hapart
  exact hsame.region hapart

/-! ### Steps -/

/-- Making room at a slot and writing there inserts it into the list. What is not written over
is what the slot held before. -/
lemma slots_openSlot (hi : i ≤ n) (hn : n < L.capacity p.size) {bs : Bytes}
    (hbs : bs.length ≤ L.width) :
    ∃ r q, openSlot L i n p = (.ok (), r) ∧ r.splice (L.offset i) bs = .ok q ∧
      KeepsLinks L p r ∧ KeepsLinks L p q ∧
      slots L (n + 1) q = (slots L n p).insertIdx i (bs ++ (slot L i p).drop bs.length) := by
  have hin := L.offset_succ_le hn
  have hplace := L.offset_mono (show i + 1 ≤ n + 1 by omega)
  have hlast := L.offset_mono (show n + 1 ≤ L.capacity p.size from hn)
  have hnext := L.offset_succ i
  obtain ⟨r, hopen, hsame, hmoved⟩ := exists_openSlot hi hin
  obtain ⟨q, hwrite⟩ := Page.exists_splice r (L.offset i) bs (by rw [hsame.size]; omega)
  have hsame' : r.SameOutside (L.offset i) (L.offset (i + 1)) q :=
    (Page.sameOutside_splice hwrite).mono le_rfl (by omega)
  have hboth : p.SameOutside (L.offset i) (L.offset (n + 1)) q :=
    (hsame.mono (L.offset_mono (by omega)) le_rfl).trans (hsame'.mono le_rfl hplace)
  have hlen : i ≤ (slots L n p).length := by simpa using hi
  refine ⟨r, q, hopen, hwrite, .of_sameOutside hsame le_rfl hlast,
    .of_sameOutside hboth le_rfl hlast, slots_eq ?_ ?_⟩
  · rw [List.length_insertIdx_of_le_length hlen, length_slots]
  refine places_insertIdx (fun j old => slot_of_getElem? (n := n)) hlen ?_ ?_ ?_
  · intro j old hj hold
    exact (slot_of_sameOutside hboth (.inl (L.offset_mono hj))).trans hold
  · rw [slot, Page.region_splice_front hwrite hbs]
    exact congrArg (fun old : Bytes => bs ++ old.drop bs.length)
      (slot_of_sameOutside hsame (.inl le_rfl))
  · intro j old hij hjn hold
    rw [length_slots] at hjn
    have hbehind := L.offset_mono (show i + 1 ≤ j + 1 by omega)
    exact (slot_of_sameOutside hsame' (.inr hbehind)).trans ((hmoved j hij hjn).trans hold)

/-- Closing a slot takes it out of the list. -/
lemma slots_closeSlot (hi : i < n) (hn : n ≤ L.capacity p.size) :
    ∃ q, closeSlot L i n p = (.ok (), q) ∧ KeepsLinks L p q ∧
      slots L (n - 1) q = (slots L n p).eraseIdx i := by
  have hin : L.offset n ≤ p.size := by
    have := L.offset_succ_le (show n - 1 < L.capacity p.size by omega)
    rwa [Nat.sub_add_cancel (by omega)] at this
  obtain ⟨q, hclose, hsame, hmoved⟩ := exists_closeSlot hi hin
  refine ⟨q, hclose, .of_sameOutside hsame le_rfl (L.offset_mono hn), slots_eq ?_ ?_⟩
  · rw [List.length_eraseIdx_of_lt (by simpa using hi), length_slots]
  refine places_eraseIdx (fun j old => slot_of_getElem? (n := n)) ?_ ?_
  · intro j old hj hold
    exact (slot_of_sameOutside hsame (.inl (L.offset_mono hj))).trans hold
  · intro j old hij hjn hold
    rw [length_slots] at hjn
    exact (hmoved j hij hjn).trans hold

/-- Putting a link in inserts it into the list. -/
lemma links_insertLink (hi : i ≤ n) (hin : L.linkOffset p.size (n + 1) ≤ p.size) (id : PageId) :
    ∃ ids q, links L n p = .ok ids ∧ insertLink L i n id p = (.ok (), q) ∧ KeepsSlots L p q ∧
      links L (n + 1) q = .ok (ids.insertIdx i id) := by
  obtain ⟨ids, rfl, hids⟩ := exists_linksHold (L := L) (p := p) (n := n)
    (by simp only [L.linkOffset_eq] at hin ⊢; omega)
  obtain ⟨q, hinsert, hsame, hnew⟩ := hids.insert id hi hin
  refine ⟨ids, q, hids.links_eq, hinsert, .of_sameOutside hsame, ?_⟩
  have := hnew.links_eq
  rwa [List.length_insertIdx_of_le_length hi] at this

/-- Taking a link out takes it out of the list. -/
lemma links_removeLink (hi : i < n) (hin : L.linkOffset p.size n ≤ p.size) :
    ∃ ids q, links L n p = .ok ids ∧ removeLink L i n p = (.ok (), q) ∧ KeepsSlots L p q ∧
      links L (n - 1) q = .ok (ids.eraseIdx i) := by
  obtain ⟨ids, rfl, hids⟩ := exists_linksHold (p := p) hin
  obtain ⟨q, hremove, hsame, hrest⟩ := hids.erase hi hin
  refine ⟨ids, q, hids.links_eq, hremove, .of_sameOutside hsame, ?_⟩
  have := hrest.links_eq
  rwa [List.length_eraseIdx_of_lt hi] at this

/-- In every page with room for a key, slots and links lie apart, and the steps on slots and
on links are insertions into the two lists and removals from them. -/
theorem listSteps_of_hasRoom (hwidth : 1 ≤ L.width) (hroom : L.HasRoom p.size) :
    L.Separates p.size ∧
    (∀ i n, i ≤ n → n < L.capacity p.size → ∀ bs : Bytes, bs.length ≤ L.width →
      ∃ r q, openSlot L i n p = (.ok (), r) ∧ r.splice (L.offset i) bs = .ok q ∧
        KeepsLinks L p r ∧ KeepsLinks L p q ∧
        slots L (n + 1) q = (slots L n p).insertIdx i (bs ++ (slot L i p).drop bs.length)) ∧
    (∀ i n, i < n → n ≤ L.capacity p.size →
      ∃ q, closeSlot L i n p = (.ok (), q) ∧ KeepsLinks L p q ∧
        slots L (n - 1) q = (slots L n p).eraseIdx i) ∧
    (L.isLeaf = false →
      (∀ i n, i ≤ n → n ≤ L.capacity p.size → ∀ id,
        ∃ ids q, links L n p = .ok ids ∧ insertLink L i n id p = (.ok (), q) ∧
          KeepsSlots L p q ∧ links L (n + 1) q = .ok (ids.insertIdx i id)) ∧
      (∀ i n, i < n → n ≤ L.capacity p.size + 1 →
        ∃ ids q, links L n p = .ok ids ∧ removeLink L i n p = (.ok (), q) ∧
          KeepsSlots L p q ∧ links L (n - 1) q = .ok (ids.eraseIdx i))) := by
  refine ⟨hroom.separates hwidth, ?_, ?_, fun hinner => ⟨?_, ?_⟩⟩
  · intro i n hi hn bs hbs
    exact slots_openSlot hi hn hbs
  · intro i n hi hn
    exact slots_closeSlot hi hn
  · intro i n hi hn id
    exact links_insertLink hi (hroom.linkOffset_le hinner (Nat.succ_le_succ hn)) id
  · intro i n hi hn
    exact links_removeLink hi (hroom.linkOffset_le hinner hn)

/-- Two slots of three bytes and three links fill an inner page of 46 bytes, in which the byte
at every place is the number of the place. -/
theorem listSteps_of_fullPage :
    let L : NodeLayout := ⟨7, 1, false, 3⟩
    let p := Page.ofBytes ((List.range 46).map UInt8.ofNat)
    1 ≤ L.width ∧ L.HasRoom p.size ∧ L.capacity p.size = 2 ∧
    (∃ r q, openSlot L 0 1 p = (.ok (), r) ∧ r.splice 16 [1, 2] = .ok q ∧
      slots L 2 q = [[1, 2, 18], [16, 17, 18]]) ∧
    (∃ q, closeSlot L 0 2 p = (.ok (), q) ∧ slots L 1 q = [[19, 20, 21]]) ∧
    (∃ q, insertLink L 1 2 (.ofNat 5) p = (.ok (), q) ∧ links L 3 q =
      .ok [.ofNat 0x161718191a1b1c1d, .ofNat 5, .ofNat 0x1e1f202122232425]) ∧
    ∃ q, removeLink L 0 3 p = (.ok (), q) ∧ links L 2 q =
      .ok [.ofNat 0x1e1f202122232425, .ofNat 0x262728292a2b2c2d] := by
  intro L p
  have hwidth : 1 ≤ L.width := by decide
  have hroom : L.HasRoom p.size := by decide +kernel
  have hcapacity : L.capacity p.size = 2 := by decide +kernel
  obtain ⟨-, hopen, hclose, hlinks⟩ := listSteps_of_hasRoom hwidth hroom
  obtain ⟨hinsert, hremove⟩ := hlinks rfl
  refine ⟨hwidth, hroom, hcapacity, ?_, ?_, ?_, ?_⟩
  · obtain ⟨r, q, hr, hq, -, -, hslots⟩ := hopen 0 1 (by decide) (by omega) [1, 2] (by decide)
    exact ⟨r, q, hr, hq, hslots.trans (by decide +kernel)⟩
  · obtain ⟨q, hq, -, hslots⟩ := hclose 0 2 (by decide) (by omega)
    exact ⟨q, hq, hslots.trans (by decide +kernel)⟩
  · obtain ⟨ids, q, hids, hq, -, hnew⟩ := hinsert 1 2 (by decide) (by omega) (.ofNat 5)
    obtain rfl : [.ofNat 0x161718191a1b1c1d, .ofNat 0x1e1f202122232425] = ids :=
      Except.ok.inj (Eq.trans (by decide +kernel) hids)
    exact ⟨q, hq, hnew⟩
  · obtain ⟨ids, q, hids, hq, -, hrest⟩ := hremove 0 3 (by decide) (by omega)
    obtain rfl : [.ofNat 0x161718191a1b1c1d, .ofNat 0x1e1f202122232425,
        .ofNat 0x262728292a2b2c2d] = ids := Except.ok.inj (Eq.trans (by decide +kernel) hids)
    exact ⟨q, hq, hrest⟩

end Node

end PageCatalog
