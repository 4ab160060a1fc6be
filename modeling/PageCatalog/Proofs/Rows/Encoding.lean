import Mathlib.Tactic
import PageCatalog.Proofs.Node.Layout

/-!
Entries and their bytes.

A page has an entry at a place exactly if the bytes there are those of the entry. So
writing and reading undo each other, what is read depends on no other byte, and an
entry copied as it stands is the entry read and written again.

* `Entry.load_eq`: what is read at a place, or what is wrong there.
* `Entry.WrittenAt`: an entry part by part; `Entry.load_iff_writtenAt`.
* `Entry.encode`: the bytes of an entry; `Entry.load_iff` says that they decide what is
  read, `Entry.store_of_short` and `Entry.store_of_long` what is written.
* `Entry.load_store_inverse`: writing and reading undo each other.
* `Entry.copy_eq`: copying is reading and writing; `Entry.copy_eq_recode` says so of
  places in any two pages and of the slots of nodes.
* `Node.SameButSlot`: two nodes that differ in one slot only.
-/

namespace PageCatalog

namespace Entry

variable {p q : Page} {a b : ℕ} {e : Entry}

/-! ### Names that fit -/

lemma checkName_ok (h : e.name.length ≤ longestName) : checkName e.name = .ok () := by
  rw [checkName, if_pos h]

lemma short_of_checkName (h : checkName e.name = .ok ()) : e.name.length ≤ longestName := by
  by_contra hlong
  rw [checkName, if_neg hlong] at h
  cases h

/-! ### Reading -/

/-- What is wrong at `a` if the name there has `n` bytes. -/
def damageAt (p : Page) (a n : ℕ) : Option Damage :=
  if longestName < n then some (.nameLength n a longestName)
  else if p.size < a + 1 + n + 8 then some (.rowPastEnd a)
  else none

/-- Nothing is wrong with a length that is short enough and leads to bytes inside the page. -/
lemma damageAt_eq_none_iff {n : ℕ} :
    damageAt p a n = none ↔ n ≤ longestName ∧ a + 1 + n + 8 ≤ p.size := by
  rw [damageAt]
  split_ifs with hlong hroom
  · exact iff_of_false not_false (by omega)
  · exact iff_of_false not_false (by omega)
  · exact iff_of_true rfl (by omega)

/-- Something is wrong with a length that is too long or leads out of the page. -/
lemma isSome_damageAt_iff {n : ℕ} :
    (damageAt p a n).isSome ↔ longestName < n ∨ p.size < a + 1 + n + 8 := by
  rw [Option.isSome_iff_ne_none, ne_eq, damageAt_eq_none_iff]
  omega

/-- The length byte is read and looked at. -/
lemma nameLength_eq (h : a < p.size) : nameLength p a =
    match damageAt p a p[a].toNat with
    | some damage => .error (.error (.corrupted damage))
    | none => .ok p[a].toNat := by
  rw [nameLength, Page.number_one h, damageAt]
  simp only [bind, Except.bind, pure, Except.pure, throw, throwThe, MonadExceptOf.throw]
  split_ifs <;> rfl

lemma nameLength_outOfBounds (h : p.size ≤ a) : nameLength p a = .error .outOfBounds := by
  rw [nameLength, Page.number_outOfBounds (by omega)]
  rfl

/-- The entry whose bytes are at `a`, if its name has `n` bytes. -/
def entryAt (p : Page) (a n : ℕ) : Entry :=
  ⟨p.region (a + 1) n, .ofNat (Bytes.toNat (p.region (a + 1 + n) 8))⟩

/-- Inside a page a read comes to an entry or to damage. -/
lemma load_eq (h : a < p.size) : load p a =
    match damageAt p a p[a].toNat with
    | some damage => .error (.error (.corrupted damage))
    | none => .ok (entryAt p a p[a].toNat) := by
  rw [load, nameLength_eq h]
  rcases hdamage : damageAt p a p[a].toNat with _ | damage
  · have hroom := (damageAt_eq_none_iff.mp hdamage).2
    have hname : p.slice (a + 1) p[a].toNat = .ok (p.region (a + 1) p[a].toNat) :=
      Page.slice_region (by omega)
    simp [hname, Page.pageId_region hroom, entryAt, bind, Except.bind, pure, Except.pure]
  · rfl

lemma load_outOfBounds (h : p.size ≤ a) : load p a = .error .outOfBounds := by
  rw [load, nameLength_outOfBounds h]
  rfl

/-- An entry is in a page when its length byte, its name and its id are there. -/
structure WrittenAt (e : Entry) (p : Page) (a : ℕ) : Prop where
  short : e.name.length ≤ longestName
  inside : a + 1 + e.name.length + 8 ≤ p.size
  length : p.region a 1 = Bytes.ofNat 1 e.name.length
  name : p.region (a + 1) e.name.length = e.name
  page : p.pageId (a + 1 + e.name.length) = .ok e.page

/-- The length byte of an entry. -/
lemma WrittenAt.toNat_length (h : e.WrittenAt p a) (ha : a < p.size) :
    p[a].toNat = e.name.length := by
  have hn : e.name.length < 256 ^ 1 := lt_of_le_of_lt h.short (by decide)
  have hbyte := h.length
  rw [Page.region_one ha] at hbyte
  have hnumber := Bytes.toNat_ofNat 1 e.name.length
  rw [← hbyte, Nat.mod_eq_of_lt hn] at hnumber
  simpa [Bytes.toNat] using hnumber

/-- An entry is loaded exactly where it is written. -/
lemma load_iff_writtenAt : load p a = .ok e ↔ e.WrittenAt p a := by
  constructor
  · intro h
    have ha : a < p.size := by
      by_contra hout
      rw [load_outOfBounds (by omega)] at h
      cases h
    rw [load_eq ha] at h
    rcases hdamage : damageAt p a p[a].toNat with _ | damage <;> rw [hdamage] at h
    · cases h
      obtain ⟨hshort, hroom⟩ := damageAt_eq_none_iff.mp hdamage
      have hlen : (p.region (a + 1) p[a].toNat).length = p[a].toNat :=
        Page.length_region_of_le (by omega)
      refine ⟨?_, ?_, ?_, ?_, ?_⟩ <;> simp only [entryAt, hlen]
      · exact hshort
      · exact hroom
      · rw [Page.region_one ha, ← Bytes.ofNat_toNat [p[a]]]
        simp [Bytes.toNat]
      · exact Page.pageId_region hroom
    · cases h
  · intro h
    have hinside := h.inside
    have ha : a < p.size := by omega
    have hpage := h.page
    rw [Page.pageId_region hinside] at hpage
    rw [load_eq ha, h.toNat_length ha, damageAt_eq_none_iff.mpr ⟨h.short, hinside⟩, entryAt, h.name]
    exact congrArg (fun id => Except.ok (Entry.mk e.name id)) (Except.ok.inj hpage)

lemma WrittenAt.nameAt (h : e.WrittenAt p a) : nameAt p a = .ok e.name := by
  have hinside := h.inside
  have ha : a < p.size := by omega
  rw [Entry.nameAt, Page.number_one ha, h.toNat_length ha]
  simp only [bind, Except.bind, Nat.min_eq_left h.short]
  rw [Page.slice_region (by omega), h.name]

/-! ### The bytes of an entry -/

/-- The bytes of an entry: the length of its name, the name and the page. -/
def encode (e : Entry) : Bytes :=
  Bytes.ofNat 1 e.name.length ++ e.name ++ Bytes.ofNat 8 e.page.toNat

@[simp] lemma length_encode (e : Entry) : e.encode.length = e.encodedLength := by
  simp [encode, encodedLength, Nat.add_assoc]

/-- An entry with a name that is short enough fits into a slot. -/
lemma encodedLength_le (h : e.name.length ≤ longestName) : e.encodedLength ≤ slotWidth := by
  rw [encodedLength, slotWidth]
  omega

lemma store_of_short (h : e.name.length ≤ longestName) (p : Page) (a : ℕ) :
    store p a e = p.splice a e.encode := by
  rw [store, checkName_ok h]
  rfl

/-- A name that does not fit is refused before anything is written. -/
lemma store_of_long (h : longestName < e.name.length) (p : Page) (a : ℕ) :
    store p a e = .error (.error
      (.nameTooLong longestName e.name.length (Text.decodeLossy e.name))) := by
  rw [store, checkName, if_neg (by omega)]

/-- An entry is in a page exactly where its bytes are. -/
lemma writtenAt_iff : e.WrittenAt p a ↔
    e.name.length ≤ longestName ∧ a + e.encodedLength ≤ p.size ∧
      p.region a e.encodedLength = e.encode := by
  have hparts : p.region a e.encodedLength = p.region a 1 ++ p.region (a + 1) e.name.length
      ++ p.region (a + 1 + e.name.length) 8 := by
    rw [encodedLength, Page.region_add, Page.region_add, Nat.add_assoc]
  have hwidth : e.encodedLength = 1 + e.name.length + 8 := rfl
  constructor
  · intro h
    have hinside := h.inside
    refine ⟨h.short, by omega, ?_⟩
    rw [hparts, h.length, h.name, Page.region_of_pageId hinside h.page, encode]
  · rintro ⟨hshort, hroom, hbytes⟩
    have hlength : (p.region a 1).length = 1 := Page.length_region_of_le (by omega)
    have hname : (p.region (a + 1) e.name.length).length = e.name.length :=
      Page.length_region_of_le (by omega)
    rw [hparts, encode] at hbytes
    obtain ⟨hhead, hpage⟩ := List.append_inj hbytes (by simp [hlength, hname])
    obtain ⟨hlen, hchars⟩ := List.append_inj hhead (by simp [hlength])
    exact ⟨hshort, by omega, hlen, hchars, Page.pageId_of_region (by omega) hpage⟩

/-- The bytes of an entry are all that decides whether it is read. -/
lemma load_iff : load p a = .ok e ↔
    e.name.length ≤ longestName ∧ a + e.encodedLength ≤ p.size ∧
      p.region a e.encodedLength = e.encode :=
  load_iff_writtenAt.trans writtenAt_iff

/-! ### Writing and reading undo each other -/

/-- A written entry is read back, from its own bytes alone. -/
lemma exists_store_of_room (hshort : e.name.length ≤ longestName)
    (hroom : a + e.encodedLength ≤ p.size) :
    ∃ q, store p a e = .ok q ∧ load q a = .ok e ∧ p.SameOutside a (a + e.encodedLength) q ∧
      ∀ r : Page, a + e.encodedLength ≤ r.size →
        r.region a e.encodedLength = q.region a e.encodedLength → load r a = .ok e := by
  have hlen := length_encode e
  obtain ⟨q, hq⟩ := Page.exists_splice p a e.encode (by omega)
  have hbytes := Page.region_splice_self hq
  have hsame := Page.sameOutside_splice hq
  rw [hlen] at hbytes hsame
  refine ⟨q, (store_of_short hshort p a).trans hq, ?_, hsame, fun r hr hregion => ?_⟩
  · exact load_iff.mpr ⟨hshort, by rwa [hsame.size], hbytes⟩
  · exact load_iff.mpr ⟨hshort, hr, hregion.trans hbytes⟩

/-- An entry that is read is written back as the same bytes. -/
lemma store_of_load (h : load p a = .ok e) : store p a e = .ok p := by
  obtain ⟨hshort, hroom, hbytes⟩ := load_iff.mp h
  rw [store_of_short hshort, ← hbytes, Page.splice_region hroom]

/-- Writing and reading an entry undo each other, at every place of every page. What is
written is read back and touches nothing else; what is read is written back as it was; a
name that does not fit is refused before the page is touched; and a read inside the page
comes to an entry unless the length there or the end of the page forbids it. -/
theorem load_store_inverse (p : Page) (a : ℕ) :
    (∀ e : Entry, e.name.length ≤ longestName → a + e.encodedLength ≤ p.size →
      ∃ q, store p a e = .ok q ∧ load q a = .ok e ∧ p.SameOutside a (a + e.encodedLength) q ∧
        ∀ r : Page, a + e.encodedLength ≤ r.size →
          r.region a e.encodedLength = q.region a e.encodedLength → load r a = .ok e) ∧
    (∀ e : Entry, load p a = .ok e → e.name.length ≤ longestName ∧ store p a e = .ok p) ∧
    (∀ e : Entry, longestName < e.name.length →
      PageM.change (store · a e) p =
        (.error (.error (.nameTooLong longestName e.name.length (Text.decodeLossy e.name))), p)) ∧
    (∀ h : a < p.size,
      ((∃ e, load p a = .ok e) ∨ ∃ damage, load p a = .error (.error (.corrupted damage))) ∧
      ((∃ damage, load p a = .error (.error (.corrupted damage))) ↔
        longestName < p[a].toNat ∨ p.size < a + 1 + p[a].toNat + 8)) := by
  refine ⟨fun e hshort hroom => exists_store_of_room hshort hroom, fun e h => ?_,
    fun e hlong => ?_, fun h => ?_⟩
  · exact ⟨(load_iff.mp h).1, store_of_load h⟩
  · rw [PageM.change, store_of_long hlong]
  · rw [load_eq h, ← isSome_damageAt_iff]
    rcases damageAt p a p[a].toNat with _ | damage
    · refine ⟨.inl ⟨_, rfl⟩, iff_of_false ?_ Bool.false_ne_true⟩
      rintro ⟨damage, hdamage⟩
      cases hdamage
    · exact ⟨.inr ⟨damage, rfl⟩, iff_of_true ⟨damage, rfl⟩ rfl⟩

/-- An entry that ends with its page, over bytes that were no entry. -/
theorem load_store_inverse_at_end :
    let p := Page.ofBytes (List.replicate 20 255)
    let e : Entry := ⟨[97, 98, 99], ⟨7⟩⟩
    (∃ damage, load p 8 = .error (.error (.corrupted damage))) ∧
    (∃ q, store p 8 e = .ok q ∧ load q 8 = .ok e ∧ store q 8 e = .ok q ∧
      q.region 0 8 = List.replicate 8 255) ∧
    (PageM.change (store · 8 ⟨List.replicate 65 97, ⟨7⟩⟩) p).2 = p := by
  intro p e
  obtain ⟨hstore, -, hlong, hload⟩ := load_store_inverse p 8
  obtain ⟨q, hq, hback, hsame, -⟩ := hstore e (by decide) (by decide)
  refine ⟨?_, ⟨q, hq, hback, ?_, ?_⟩, ?_⟩
  · exact (hload (by decide)).2.mpr (.inl (by decide))
  · exact ((load_store_inverse q 8).2.1 e hback).2
  · rw [hsame.region (.inl (by decide))]
    decide
  · rw [hlong ⟨List.replicate 65 97, ⟨7⟩⟩ (by decide)]

/-! ### Copying -/

/-- An entry copied as it stands is the entry read and written again. -/
lemma copy_eq (p : Page) (a : ℕ) (src : Page) (b : ℕ) :
    copy p a src b = (load src b).bind (store p a) := by
  by_cases hb : b < src.size
  · rw [load_eq hb, copy, nameLength_eq hb]
    rcases hdamage : damageAt src b src[b].toNat with _ | damage
    · -- the copied bytes are those of the entry that is read
      obtain ⟨hshort, hroom, hbytes⟩ := load_iff.mp
        (show load src b = .ok (entryAt src b src[b].toNat) by rw [load_eq hb, hdamage])
      have hinside := (damageAt_eq_none_iff.mp hdamage).2
      have hwidth : (entryAt src b src[b].toNat).encodedLength = 1 + src[b].toNat + 8 := by
        rw [encodedLength, entryAt, Page.length_region_of_le (by omega)]
      rw [hwidth] at hroom hbytes
      simp only [bind, Except.bind, Page.slice_region hroom, hbytes, store_of_short hshort]
    · rfl
  · rw [load_outOfBounds (by omega), copy, nameLength_outOfBounds (by omega)]
    rfl

/-- Reads the entry at `b` of `src` and writes it at `a`. -/
def recode (a : ℕ) (src : Page) (b : ℕ) : PageM Unit := do
  let e ← PageM.look fun _ => load src b
  .change (store · a e)

lemma change_copy (a : ℕ) (src : Page) (b : ℕ) :
    PageM.change (copy · a src b) = recode a src b := by
  funext p
  rw [recode, PageM.change, copy_eq]
  cases load src b <;> rfl

/-- The ways a copy can end: the source is damaged and nothing is written, the source or
the target leaves its page, or the bytes of the entry are written. -/
inductive Copied (p : Page) (a : ℕ) (src : Page) (b : ℕ) : Except Failure Unit × Page → Prop
  | refused {damage : Damage} (h : load src b = .error (.error (.corrupted damage))) :
      Copied p a src b (.error (.error (.corrupted damage)), p)
  | behindSource (h : src.size ≤ b) : Copied p a src b (.error .outOfBounds, p)
  | noRoom {e : Entry} (h : load src b = .ok e) (hroom : p.size < a + e.encodedLength) :
      Copied p a src b (.error .outOfBounds, p)
  | written {e : Entry} {q : Page} (h : load src b = .ok e) (hq : store p a e = .ok q)
      (hsame : p.SameOutside a (a + e.encodedLength) q) : Copied p a src b (.ok (), q)

/-- Loading an entry and storing it again copies it. -/
lemma copied_recode (p : Page) (a : ℕ) (src : Page) (b : ℕ) :
    Copied p a src b (recode a src b p) := by
  rw [← change_copy, PageM.change, copy_eq]
  by_cases hb : b < src.size
  · rcases hload : load src b with reason | e
    · have hread := hload
      rw [load_eq hb] at hread
      rcases hdamage : damageAt src b src[b].toNat with _ | damage <;> rw [hdamage] at hread
      · cases hread
      · cases hread
        exact .refused hload
    · have hshort := (load_iff.mp hload).1
      by_cases hroom : a + e.encodedLength ≤ p.size
      · obtain ⟨q, hq, -, hsame, -⟩ := exists_store_of_room hshort hroom
        simp only [Except.bind, hq]
        exact .written hload hq hsame
      · simp only [Except.bind, store_of_short hshort]
        rw [Page.splice_outOfBounds (by rw [length_encode]; omega)]
        exact .noRoom hload (by omega)
  · rw [load_outOfBounds (by omega)]
    exact .behindSource (by omega)

end Entry

/-! ### Copying between slots -/

/-- Two pages laid out alike that differ in slot `i` only. -/
structure Node.SameButSlot (L : NodeLayout) (i : ℕ) (p q : Page) : Prop where
  size : q.size = p.size
  header : q.region 0 headerSize = p.region 0 headerSize
  slot : ∀ k ≠ i, q.region (L.offset k) L.width = p.region (L.offset k) L.width
  link : ∀ k, q.region (L.linkOffset p.size k) linkSize = p.region (L.linkOffset p.size k) linkSize

/-- A change inside a slot leaves the rest of a node alone. -/
lemma Node.sameButSlot_of_sameOutside {L : NodeLayout} {i : ℕ} {p q : Page}
    (h : p.SameOutside (L.offset i) (L.offset (i + 1)) q) (hi : i < L.capacity p.size) :
    Node.SameButSlot L i p q where
  size := h.size
  header := h.region (.inl (L.header_le_offset i))
  slot k hk := by
    rcases lt_or_gt_of_ne hk with hk | hk
    · exact h.region (.inl (L.offset_lt hk))
    · exact h.region (.inr (L.offset_mono hk))
  link k := h.region (.inr (L.offset_le_linkOffset hi))

namespace RowFormat

/-- Reads the row in slot `j` of a page laid out by `K` and writes it into slot `i`. -/
def recodeSlot {ρ : Type} (R : RowFormat ρ) (L : NodeLayout) (i : ℕ) (K : NodeLayout) (src : Page)
    (j : ℕ) : PageM Unit := do
  let row ← PageM.look fun _ => R.loadSlot K j src
  R.storeSlot L i row

variable {L K : NodeLayout} {i j : ℕ} {p src : Page}

/-- A slot below the capacity lies inside the page. -/
lemma slot_le (hL : L.width = Entry.slotWidth) (hi : i < L.capacity p.size) :
    L.offset i + Entry.slotWidth ≤ p.size := by
  rw [← hL, ← L.offset_succ]
  exact L.offset_succ_le hi

/-- A copy from slot to slot is refused for damage or done, and leaves the rest of the
node alone. -/
lemma copied_slot (hL : L.width = Entry.slotWidth) (hi : i < L.capacity p.size)
    (hK : K.width = Entry.slotWidth) (hj : j < K.capacity src.size) :
    ((∃ damage, entries.copySlot L i K src j p = (.error (.error (.corrupted damage)), p)) ∨
        (entries.copySlot L i K src j p).1 = .ok ()) ∧
      Node.SameButSlot L i p (entries.copySlot L i K src j p).2 := by
  have hslot := slot_le hL hi
  have hsource := slot_le hK hj
  have hwidth : 0 < Entry.slotWidth := by decide
  have hwhole : ∀ {q : Page}, p.SameOutside (L.offset i) (L.offset (i + 1)) q →
      Node.SameButSlot L i p q := fun h => Node.sameButSlot_of_sameOutside h hi
  have hself : p.SameOutside (L.offset i) (L.offset (i + 1)) p := ⟨rfl, fun _ => rfl⟩
  have hrun : entries.copySlot L i K src j = Entry.recode (L.offset i) src (K.offset j) :=
    Entry.change_copy _ _ _
  rw [hrun]
  rcases hend : Entry.recode (L.offset i) src (K.offset j) p with ⟨result, q⟩
  have hcopied := Entry.copied_recode p (L.offset i) src (K.offset j)
  rw [hend] at hcopied
  cases hcopied with
  | refused h => exact ⟨.inl ⟨_, rfl⟩, hwhole hself⟩
  | behindSource h => omega
  | noRoom h hroom =>
      have hshort := Entry.encodedLength_le (Entry.load_iff.mp h).1
      omega
  | written h hq hsame =>
      have hshort := Entry.encodedLength_le (Entry.load_iff.mp h).1
      refine ⟨.inr rfl, hwhole (hsame.mono le_rfl ?_)⟩
      rw [L.offset_succ]
      omega

end RowFormat

/-- Copying an entry as it stands does what reading it and writing it again does, whatever
stands in the two pages. Between slots of nodes of the directory the copy never leaves a
page, and the other slots, the header and the links of the target stay as they were. -/
theorem Entry.copy_eq_recode (p src : Page) :
    (∀ a b : ℕ, PageM.change (Entry.copy · a src b) p = Entry.recode a src b p ∧
      Entry.Copied p a src b (PageM.change (Entry.copy · a src b) p)) ∧
    ∀ L ∈ [RowFormat.entries.inner, RowFormat.entries.leaf],
      ∀ K ∈ [RowFormat.entries.inner, RowFormat.entries.leaf],
      ∀ i < L.capacity p.size, ∀ j < K.capacity src.size,
        RowFormat.entries.copySlot L i K src j p = RowFormat.entries.recodeSlot L i K src j p ∧
        ((∃ damage, RowFormat.entries.copySlot L i K src j p =
            (.error (.error (.corrupted damage)), p)) ∨
          (RowFormat.entries.copySlot L i K src j p).1 = .ok ()) ∧
        Node.SameButSlot L i p (RowFormat.entries.copySlot L i K src j p).2 := by
  have hwidth : ∀ L ∈ [RowFormat.entries.inner, RowFormat.entries.leaf],
      L.width = Entry.slotWidth := by
    decide
  refine ⟨fun a b => ?_, fun L hL K hK i hi j hj => ⟨?_, ?_⟩⟩
  · rw [Entry.change_copy]
    exact ⟨rfl, Entry.copied_recode p a src b⟩
  · exact congrFun (Entry.change_copy (L.offset i) src (K.offset j)) p
  · exact RowFormat.copied_slot (hwidth L hL) hi (hwidth K hK) hj

/-- An empty name goes from an inner node down into a leaf, and a length byte that is too
large is not copied. -/
theorem Entry.copy_eq_recode_of_damaged :
    let p := Page.ofBytes (List.replicate 90 255)
    let src := Page.zeros 105
    RowFormat.entries.copySlot RowFormat.entries.leaf 0 RowFormat.entries.inner src 0 p =
        RowFormat.entries.recodeSlot RowFormat.entries.leaf 0 RowFormat.entries.inner src 0 p ∧
      (RowFormat.entries.copySlot RowFormat.entries.leaf 0 RowFormat.entries.leaf p 0 p).2 = p := by
  intro p src
  obtain ⟨-, hslots⟩ := Entry.copy_eq_recode p src
  obtain ⟨-, hself⟩ := Entry.copy_eq_recode p p
  refine ⟨(hslots _ (by decide) _ (by decide) 0 (by decide) 0 (by decide)).1, ?_⟩
  obtain ⟨-, hend, -⟩ := hself RowFormat.entries.leaf (by decide) RowFormat.entries.leaf
    (by decide) 0 (by decide) 0 (by decide)
  obtain ⟨damage, h⟩ | h := hend
  · rw [h]
  · exact absurd h (by decide)

end PageCatalog
