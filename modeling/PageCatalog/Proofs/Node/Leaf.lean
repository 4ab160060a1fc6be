import Mathlib.Tactic
import PageCatalog.Tree.Remove
import PageCatalog.Tree.Walk
import PageCatalog.Proofs.Node.Slots

/-!
Leaves.

A page is a leaf with a list of rows if its header says so, the rows fit, and the
slots hold them. Every step on a leaf leaves a leaf, and its list is what the step's
name says.

* `RowFormat.LeafPage`: a page as a leaf.
* `LeafPage.kind`, `LeafPage.content`: how a tree meets it.
* `LeafPage.init`, `insertRow`, `replaceRow`, `eraseRow`, `cut`, `fillRight`: the
  steps.
-/

namespace PageCatalog

/-- A page of a size that a store can have. -/
def Page.Usual (p : Page) : Prop := 512 ≤ p.size ∧ p.size ≤ 65536

lemma Page.Usual.of_size {p q : Page} (h : p.Usual) (hsize : q.size = p.size) : q.Usual := by
  rwa [Page.Usual, hsize]

lemma Page.Usual.header_le {p : Page} (h : p.Usual) : 24 ≤ p.size := by
  have := h.1
  omega

/-- A known version of the expected type passes the check. -/
lemma Node.Head.check {L : NodeLayout} {id : PageId} {n : ℕ} {p : Page} (h : Node.Head L id n p) :
    L.check p = .ok () := by
  obtain ⟨v, hv, hle, hlatest⟩ := h.version
  have hv0 : ¬ v = 0 := by omega
  have hv1 : ¬ L.latest < v := by omega
  simp [NodeLayout.check, h.tag, hv, hv0, hv1, bind, Except.bind, pure, Except.pure]

namespace RowFormat

variable {ρ κ : Type} [LinearOrder κ]

/-- A page holds a leaf with the given id and rows. -/
structure LeafPage (R : RowFormat ρ) (id : PageId) (rows : List ρ) (p : Page) : Prop where
  head : Node.Head R.leaf id rows.length p
  room : rows.length ≤ R.leaf.capacity p.size
  slots : R.SlotsHold R.leaf rows p

end RowFormat

namespace Tree

open RowFormat

variable {ρ κ : Type} [LinearOrder κ] (t : Tree ρ) {key : ρ → κ} {id : PageId} {rows : List ρ}
  {p : Page} {i : ℕ} {row : ρ}

/-! ### Reading a leaf -/

lemma kind_leaf (h : t.rows.LeafPage id rows p) : t.kind id p = .ok .leaf := by
  have hroom : ¬ t.rows.leaf.capacity p.size < rows.length := by
    have := h.room
    omega
  simp [kind, h.head.tag, h.head.check, h.head.self, h.head.count, hroom, bind, Except.bind, pure,
    Except.pure]

lemma content_leaf (h : t.rows.LeafPage id rows p) : t.content id p = .ok (.leaf rows) := by
  simp only [content, h.head.count, t.kind_leaf h, bind, Except.bind, range_mapM h.slots]
  rfl

/-! ### Steps on a leaf -/

lemma exists_initLeaf (hR : t.rows.Lawful key) (hp : p.Usual) (id : PageId) :
    ∃ q, Node.init t.rows.leaf id p = (.ok (), q) ∧ q.size = p.size ∧ t.rows.LeafPage id [] q := by
  obtain ⟨q, hq, hsame, hhead⟩ := Node.exists_init (p := p) id hR.leaf_tag_lt hR.leaf_latest
    hp.header_le
  exact ⟨q, hq, hsame.size, hhead, Nat.zero_le _, fun i row hrow => by simp at hrow⟩

/-- A row inserted into a leaf that is not full. -/
lemma exists_insertRow (hR : t.rows.Lawful key) (hp : p.Usual) (h : t.rows.LeafPage id rows p)
    (hi : i ≤ rows.length) (hroom : rows.length < t.rows.leaf.capacity p.size)
    (hfits : t.rows.fits row = .ok ()) :
    ∃ q, t.insertRow i row p = (.ok (), q) ∧ q.size = p.size ∧
      t.rows.LeafPage id (rows.insertIdx i row) q := by
  have hp24 : 24 ≤ p.size := hp.header_le
  have hcapacity := t.rows.leaf.capacity_lt hp.2
  have hin := (t.rows.leaf.offset_mono hroom).trans (t.rows.leaf.offset_capacity_le hp24)
  have hheader := t.rows.leaf.header_le_offset i
  obtain ⟨r, q, hopen, hstore, hsame, hslots⟩ := h.slots.insert hR rfl hi hfits hin
  obtain ⟨u, hcount, hsame', hhead⟩ := Node.exists_setCount (m := rows.length + 1)
    (h.head.of_sameOutside hsame hheader) (by omega) (by rw [hsame.size]; omega)
  have hlen : (rows.insertIdx i row).length = rows.length + 1 :=
    List.length_insertIdx_of_le_length hi row
  refine ⟨u, ?_, hsame'.size.trans hsame.size, ?_, ?_, ?_⟩
  · rw [insertRow, run_bind_ok (PageM.look_ok h.head.count), run_bind_ok hopen, run_bind_ok hstore,
      hcount]
  · rwa [hlen]
  · rw [hlen, hsame'.size, hsame.size]
    exact hroom
  · exact hslots.of_sameOutside hR rfl hsame' (by rw [hlen, hsame.size]; exact hin)
      (.inr (by omega))

lemma exists_replaceRow (hR : t.rows.Lawful key) (hp : p.Usual) (h : t.rows.LeafPage id rows p)
    {old : ρ} (hold : rows[i]? = some old) (hfits : t.rows.fits row = .ok ()) :
    ∃ q, t.replaceRow i row p = (.ok old, q) ∧ q.size = p.size ∧
      t.rows.LeafPage id (rows.set i row) q := by
  have hp24 : 24 ≤ p.size := hp.header_le
  have hin := (t.rows.leaf.offset_mono h.room).trans (t.rows.leaf.offset_capacity_le hp24)
  have hi : i < rows.length := (List.getElem?_eq_some_iff.mp hold).1
  obtain ⟨q, hstore, hsame, hslots⟩ := h.slots.set hR rfl hi hfits hin
  refine ⟨q, ?_, hsame.size, ?_, ?_, hslots⟩
  · rw [replaceRow, run_bind_ok (PageM.look_ok (h.slots i old hold)), run_bind_ok hstore]
    rfl
  · rw [List.length_set]
    exact h.head.of_sameOutside hsame (t.rows.leaf.header_le_offset i)
  · rw [List.length_set, hsame.size]
    exact h.room

lemma exists_eraseRow (hR : t.rows.Lawful key) (hp : p.Usual) (h : t.rows.LeafPage id rows p)
    {old : ρ} (hold : rows[i]? = some old) :
    ∃ q, t.eraseRow i p = (.ok ⟨some old, rows.length = 1⟩, q) ∧ q.size = p.size ∧
      t.rows.LeafPage id (rows.eraseIdx i) q := by
  have hp24 : 24 ≤ p.size := hp.header_le
  have hcapacity := t.rows.leaf.capacity_lt hp.2
  have hroom := h.room
  have hin := (t.rows.leaf.offset_mono h.room).trans (t.rows.leaf.offset_capacity_le hp24)
  have hi : i < rows.length := (List.getElem?_eq_some_iff.mp hold).1
  obtain ⟨q, hclose, hsame, hslots⟩ := h.slots.erase hR rfl hi hin
  obtain ⟨u, hcount, hsame', hhead⟩ := Node.exists_setCount (m := rows.length - 1)
    (h.head.of_sameOutside hsame (t.rows.leaf.header_le_offset i)) (by omega)
    (by rw [hsame.size]; omega)
  have hlen : (rows.eraseIdx i).length = rows.length - 1 := List.length_eraseIdx_of_lt hi
  refine ⟨u, ?_, hsame'.size.trans hsame.size, ?_, ?_, ?_⟩
  · rw [eraseRow, run_bind_ok (PageM.look_ok (h.slots i old hold)),
      run_bind_ok (PageM.look_ok h.head.count), run_bind_ok hclose, run_bind_ok hcount]
    rfl
  · rwa [hlen]
  · rw [hlen, hsame'.size, hsame.size]
    omega
  · refine hslots.of_sameOutside hR rfl hsame' ?_ (.inr (by omega))
    rw [hlen, hsame.size]
    exact (t.rows.leaf.offset_mono (by omega)).trans hin

/-- The left half of a leaf keeps its first rows. -/
lemma exists_cutLeaf (hR : t.rows.Lawful key) (hp : p.Usual) (h : t.rows.LeafPage id rows p) {m : ℕ}
    (hm : m ≤ rows.length) :
    ∃ q, Node.setCount m p = (.ok (), q) ∧ q.size = p.size ∧
      t.rows.LeafPage id (rows.take m) q := by
  have hp24 : 24 ≤ p.size := hp.header_le
  have hcapacity := t.rows.leaf.capacity_lt hp.2
  have hroom := h.room
  have hin := (t.rows.leaf.offset_mono (hm.trans h.room)).trans
    (t.rows.leaf.offset_capacity_le hp24)
  obtain ⟨q, hcount, hsame, hhead⟩ := Node.exists_setCount (m := m) h.head (by omega) hp24
  have hlen : (rows.take m).length = m := List.length_take_of_le hm
  refine ⟨q, hcount, hsame.size, by rwa [hlen], by rw [hlen, hsame.size]; omega, ?_⟩
  exact (h.slots.take m).of_sameOutside hR rfl hsame (by rwa [hlen]) (.inr (by omega))

/-- The right half of a leaf is filled with its last rows. -/
lemma exists_fillRightLeaf (hR : t.rows.Lawful key) {left : Page} (hleft : left.Usual)
    (hp : p.size = left.size) (h : t.rows.LeafPage id rows left) {m : ℕ} (hm : m ≤ rows.length)
    (right : PageId) :
    ∃ q, t.fillRightLeaf right left m rows.length p = (.ok (), q) ∧ q.size = left.size ∧
      t.rows.LeafPage right (rows.drop m) q := by
  have hp24 : 24 ≤ left.size := hleft.header_le
  have hcapacity := t.rows.leaf.capacity_lt hleft.2
  have hroom := h.room
  have hin := (t.rows.leaf.offset_mono h.room).trans (t.rows.leaf.offset_capacity_le hp24)
  have hpart := t.rows.leaf.offset_mono (show rows.length - m ≤ rows.length by omega)
  obtain ⟨r, hinit, hsize, hempty⟩ := t.exists_initLeaf hR (hleft.of_size hp) right
  obtain ⟨q, hcopies, hsame, hslots⟩ := t.exists_copySlots hR rfl h.slots hin (rows.length - m) []
    (i := 0) (j := m) (p := r) rfl (by omega) (by rw [Nat.zero_add, hsize, hp]; omega)
    hempty.slots
  obtain ⟨u, hcount, hsame', hhead⟩ := Node.exists_setCount (m := rows.length - m)
    (hempty.head.of_sameOutside hsame (t.rows.leaf.header_le_offset 0)) (by omega)
    (by rw [hsame.size, hsize, hp]; omega)
  have hlen : (rows.drop m).length = rows.length - m := List.length_drop
  have hall : (rows.drop m).take (rows.length - m) = rows.drop m :=
    List.take_of_length_le (by rw [hlen])
  rw [List.nil_append, hall] at hslots
  have hsize' : u.size = left.size := by rw [hsame'.size, hsame.size, hsize, hp]
  refine ⟨u, ?_, hsize', ?_, ?_, ?_⟩
  · rw [fillRightLeaf, run_bind_ok hinit, run_bind_ok hcopies, hcount]
  · rwa [hlen]
  · rw [hlen, hsize']
    omega
  · exact hslots.of_sameOutside hR rfl hsame' (by rw [hlen, hsame.size, hsize, hp]; omega)
      (.inr (by omega))

end Tree

end PageCatalog
