import Mathlib.Tactic
import Mathlib.Data.List.Lex
import PageCatalog.Proofs.Rows.Encoding

/-!
What a tree relies on in its rows.

Rows are told apart and ordered by a key. A format of rows keeps its promises if a
row that was written into a slot, or copied there, is read back from the bytes of
that slot alone, and if the comparison with a stored row is that of the keys.

* `RowFormat.Lawful`: the promises.
* `Bytes.order_compares`: strings of bytes are ordered as the lists of their
  numbers.
* `RowFormat.entries_lawful`, `RowFormat.keys_lawful`: entries of the directory,
  by their names, and numbers in slots of eight bytes or more keep them.
-/

namespace PageCatalog

/-! ### The order of strings of bytes -/

namespace Bytes

/-- A string of bytes as a list of numbers, which are ordered by the first place where
they differ. -/
def numbers (bs : Bytes) : List ℕ := bs.map UInt8.toNat

lemma numbers_injective : Function.Injective numbers :=
  List.map_injective_iff.mpr fun _ _ h => UInt8.toNat_inj.mp h

lemma order_compares (a b : Bytes) : (order a b).Compares a.numbers b.numbers := by
  induction a generalizing b with
  | nil =>
      cases b with
      | nil => exact (rfl : numbers [] = numbers [])
      | cons y ys => exact List.nil_lt_cons _ _
  | cons x xs ih =>
      cases b with
      | nil => exact List.nil_lt_cons _ _
      | cons y ys =>
          have hrest := ih ys
          rw [order]
          rcases Nat.lt_trichotomy x.toNat y.toNat with h | h | h
          · rw [compare_lt_iff_lt.mpr h]
            exact List.cons_lt_cons_iff.mpr (.inl h)
          · rw [compare_eq_iff_eq.mpr h, Ordering.then]
            cases ho : order xs ys <;> rw [ho] at hrest
            · exact List.cons_lt_cons_iff.mpr (.inr ⟨h, hrest⟩)
            · exact congrArg₂ List.cons h hrest
            · exact List.cons_lt_cons_iff.mpr (.inr ⟨h.symm, hrest⟩)
          · rw [compare_gt_iff_gt.mpr h]
            exact List.cons_lt_cons_iff.mpr (.inl h)

end Bytes

/-! ### Promises of a format -/

/-- What a tree relies on in its rows. The bytes of a slot decide what is read from it,
and a write into a slot stays inside it. -/
structure RowFormat.Lawful {ρ κ : Type} [LinearOrder κ] (R : RowFormat ρ) (key : ρ → κ) :
    Prop where
  leaf_isLeaf : R.leaf.isLeaf = true
  inner_isLeaf : R.inner.isLeaf = false
  inner_width : R.inner.width = R.leaf.width
  width_pos : 0 < R.leaf.width
  tag_ne : R.leaf.tag ≠ R.inner.tag
  leaf_tag_lt : R.leaf.tag < 256 ^ 2
  inner_tag_lt : R.inner.tag < 256 ^ 2
  leaf_latest : 1 ≤ R.leaf.latest ∧ R.leaf.latest < 256 ^ 2
  inner_latest : 1 ≤ R.inner.latest ∧ R.inner.latest < 256 ^ 2
  /-- A row is found wherever the bytes of its slot are. -/
  load_of_region : ∀ {p q : Page} {a b : ℕ} {row : ρ}, b + R.leaf.width ≤ q.size →
    q.region b R.leaf.width = p.region a R.leaf.width → R.load p a = .ok row →
    R.load q b = .ok row
  fits_of_load : ∀ {p : Page} {a : ℕ} {row : ρ}, R.load p a = .ok row → R.fits row = .ok ()
  compare_of_load : ∀ {p : Page} {a : ℕ} {row : ρ}, R.load p a = .ok row →
    ∀ other, ∃ o : Ordering, R.compareAt p a other = .ok o ∧ o.Compares (key row) (key other)
  store_ok : ∀ {p : Page} {a : ℕ} {row : ρ}, a + R.leaf.width ≤ p.size → R.fits row = .ok () →
    ∃ bs q, bs.length ≤ R.leaf.width ∧ p.splice a bs = .ok q ∧ R.store p a row = .ok q ∧
      R.load q a = .ok row
  copy_ok : ∀ {p src : Page} {a b : ℕ} {row : ρ}, a + R.leaf.width ≤ p.size →
    b + R.leaf.width ≤ src.size → R.load src b = .ok row →
    ∃ bs q, bs.length ≤ R.leaf.width ∧ p.splice a bs = .ok q ∧ R.copy p a src b = .ok q ∧
      R.load q a = .ok row

/-! ### Entries of the directory -/

namespace Entry

/-- Entries are ordered by the bytes of their names. -/
def key (e : Entry) : List ℕ := e.name.numbers

variable {p q : Page} {a b : ℕ} {e : Entry}

/-- An entry is where the bytes of its slot are. -/
lemma load_of_region (hb : b + slotWidth ≤ q.size)
    (hregion : q.region b slotWidth = p.region a slotWidth) (h : load p a = .ok e) :
    load q b = .ok e := by
  obtain ⟨hshort, -, hbytes⟩ := load_iff.mp h
  have hlen := encodedLength_le hshort
  have hpart := Page.region_region hregion (d := 0) (n := e.encodedLength) (by omega)
  exact load_iff.mpr ⟨hshort, by omega, hpart.trans hbytes⟩

/-- A write of an entry succeeds in a slot that lies inside the page. -/
lemma exists_store (hshort : e.name.length ≤ longestName) (ha : a + slotWidth ≤ p.size) :
    ∃ bs q, bs.length ≤ slotWidth ∧ p.splice a bs = .ok q ∧ store p a e = .ok q ∧
      load q a = .ok e := by
  have hlen := encodedLength_le hshort
  obtain ⟨q, hstore, hload, -⟩ := exists_store_of_room hshort (a := a) (p := p) (by omega)
  refine ⟨e.encode, q, by rwa [length_encode], ?_, hstore, hload⟩
  rwa [store_of_short hshort] at hstore

end Entry

namespace RowFormat

theorem entries_lawful : entries.Lawful Entry.key where
  leaf_isLeaf := rfl
  inner_isLeaf := rfl
  inner_width := rfl
  width_pos := by decide
  tag_ne := by decide
  leaf_tag_lt := by decide
  inner_tag_lt := by decide
  leaf_latest := by decide
  inner_latest := by decide
  load_of_region := Entry.load_of_region
  fits_of_load h := Entry.checkName_ok (Entry.load_iff.mp h).1
  compare_of_load {p a row} h other := by
    refine ⟨Bytes.order row.name other.name, ?_, Bytes.order_compares _ _⟩
    change Entry.compareAt p a other = _
    rw [Entry.compareAt, (Entry.load_iff_writtenAt.mp h).nameAt]
    rfl
  store_ok ha hfits := Entry.exists_store (Entry.short_of_checkName hfits) ha
  copy_ok {p src a b row} ha _ h := by
    obtain ⟨bs, q, hlen, hq, hstore, hload⟩ := Entry.exists_store (Entry.load_iff.mp h).1 ha
    refine ⟨bs, q, hlen, hq, ?_, hload⟩
    change Entry.copy p a src b = .ok q
    rw [Entry.copy_eq, show Entry.load src b = .ok row from h]
    exact hstore

/-! ### Numbers -/

/-- Numbers are ordered by size. -/
def keyOrder (k : UInt64) : ℕ := k.toNat

lemma loadKey_region {p : Page} {a : ℕ} (h : a + 8 ≤ p.size) :
    loadKey p a = .ok (UInt64.ofNat (Bytes.toNat (p.region a 8))) := by
  rw [loadKey, Page.number_region h]
  rfl

lemma loadKey_of_written {p : Page} {a : ℕ} {k : UInt64} (h : a + 8 ≤ p.size)
    (hregion : p.region a 8 = Bytes.ofNat 8 k.toNat) : loadKey p a = .ok k := by
  have hlt : k.toNat < 256 ^ 8 := k.toNat_lt
  rw [loadKey_region h, hregion, Bytes.toNat_ofNat, Nat.mod_eq_of_lt hlt]
  simp

lemma inside_of_loadKey {p : Page} {a : ℕ} {k : UInt64} (h : loadKey p a = .ok k) :
    a + 8 ≤ p.size := by
  by_contra hle
  rw [loadKey, Page.number, Page.slice_eq, if_neg hle] at h
  cases h

theorem keys_lawful {width : ℕ} (hwidth : 8 ≤ width) : (keys width).Lawful keyOrder where
  leaf_isLeaf := rfl
  inner_isLeaf := rfl
  inner_width := rfl
  width_pos := lt_of_lt_of_le (by decide) hwidth
  tag_ne := show 200 ≠ 201 by decide
  leaf_tag_lt := show 200 < 256 ^ 2 by decide
  inner_tag_lt := show 201 < 256 ^ 2 by decide
  leaf_latest := show 1 ≤ 2 ∧ 2 < 256 ^ 2 by decide
  inner_latest := show 1 ≤ 2 ∧ 2 < 256 ^ 2 by decide
  load_of_region {p q a b row} hb hregion h := by
    change b + width ≤ q.size at hb
    have hpart : q.region b 8 = p.region a 8 :=
      Page.region_region hregion (d := 0) (show 0 + 8 ≤ width by omega)
    change loadKey p a = .ok row at h
    change loadKey q b = .ok row
    rw [loadKey_region (inside_of_loadKey h)] at h
    rw [loadKey_region (by omega), hpart, h]
  fits_of_load _ := rfl
  compare_of_load {p a row} h other := by
    refine ⟨compare row.toNat other.toNat, ?_, ?_⟩
    · change (loadKey p a).map _ = _
      rw [show loadKey p a = .ok row from h]
      rfl
    · exact (compare_iff _ _).mp rfl
  store_ok {p a row} ha _ := by
    change a + width ≤ p.size at ha
    obtain ⟨q, hq⟩ := Page.exists_splice p a (Bytes.ofNat 8 row.toNat)
      (by rw [Bytes.length_ofNat]; omega)
    refine ⟨_, q, by rw [Bytes.length_ofNat]; exact hwidth, hq, hq, ?_⟩
    exact loadKey_of_written (by rw [Page.size_of_splice hq]; omega) (Page.region_setNumber hq)
  copy_ok {p src a b row} ha hb h := by
    change a + width ≤ p.size at ha
    change b + width ≤ src.size at hb
    have hlen : (src.region b 8).length = 8 := Page.length_region_of_le (by omega)
    obtain ⟨q, hq⟩ := Page.exists_splice p a (src.region b 8) (by omega)
    refine ⟨_, q, by rw [hlen]; exact hwidth, hq, ?_, ?_⟩
    · change (src.slice b 8).bind (p.splice a) = .ok q
      rw [Page.slice_region (by omega)]
      exact hq
    · have hsame := Page.region_splice_self hq
      rw [hlen] at hsame
      change loadKey src b = .ok row at h
      change loadKey q a = .ok row
      rw [loadKey_region (by omega)] at h
      rw [loadKey_region (by rw [Page.size_of_splice hq]; omega), hsame, h]

end RowFormat

end PageCatalog
