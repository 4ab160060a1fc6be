import Mathlib.Tactic
import PageCatalog.Proofs.Node.Layout
import PageCatalog.Proofs.Rows.Lawful
import PageCatalog.Tree.Put

/-!
Lists of rows in slots, and lists of links.

Slot by slot a page holds a list of rows, and on inner pages link by link a list of
ids. The steps on a page are the operations on these lists: making room and writing is
insertion, closing a gap is removal, and copying from slot to slot is a part of
another page's list.

* `RowFormat.SlotsHold`, `Node.LinksHold`: a page holds a list.
* `places_insertIdx`, `places_eraseIdx`: what is known of the places of a list, after an
  insertion and after a removal.
* `SlotsHold.insert`, `SlotsHold.set`, `SlotsHold.erase`, `SlotsHold.copy`.
* `LinksHold.insert`, `LinksHold.erase`.
-/

namespace PageCatalog

/-- The slots of a page, from the first on, hold the rows of a list. -/
def RowFormat.SlotsHold {ρ : Type} (R : RowFormat ρ) (L : NodeLayout) (rows : List ρ) (p : Page) :
    Prop :=
  ∀ (i : ℕ) (row : ρ), rows[i]? = some row → R.loadSlot L i p = .ok row

/-- The links of a page, from the first on, are the ids of a list. -/
def Node.LinksHold (L : NodeLayout) (links : List PageId) (p : Page) : Prop :=
  ∀ (i : ℕ) (id : PageId), links[i]? = some id → Node.link L i p = .ok id

/-! ### Lists by their places -/

section Places

variable {α : Type} {P Q : ℕ → α → Prop} {as : List α} {a : α} {i : ℕ}

/-- A list whose places can be read one by one can be read as a whole. -/
lemma range_mapM {ε : Type} {f : ℕ → Except ε α}
    (h : ∀ (i : ℕ) (a : α), as[i]? = some a → f i = .ok a) :
    (List.range as.length).mapM f = .ok as := by
  have hread : ∀ n, (List.range' n (as.length - n)).mapM f = .ok (as.drop n) := by
    intro n
    induction hk : as.length - n generalizing n with
    | zero =>
        rw [List.drop_eq_nil_of_le (by omega)]
        rfl
    | succ k ih =>
        have hn : n < as.length := by omega
        rw [List.range'_succ, List.mapM_cons, h n _ (List.getElem?_eq_getElem hn),
          ih (n + 1) (by omega), List.drop_eq_getElem_cons hn]
        rfl
  have := hread 0
  rwa [Nat.sub_zero, List.drop_zero, ← List.range_eq_range'] at this

/-- The elements of a list stay at their places before a new one, and move up behind it. -/
lemma places_insertIdx (h : ∀ j b, as[j]? = some b → P j b) (hi : i ≤ as.length)
    (hbefore : ∀ j b, j < i → P j b → Q j b) (hat : Q i a)
    (hmoved : ∀ j b, i ≤ j → j < as.length → P j b → Q (j + 1) b) :
    ∀ j b, (as.insertIdx i a)[j]? = some b → Q j b := by
  intro j b hb
  rw [List.getElem?_insertIdx] at hb
  rcases lt_trichotomy j i with hlt | rfl | hgt
  · rw [if_pos hlt] at hb
    exact hbefore j b hlt (h j b hb)
  · rw [if_neg (lt_irrefl j), if_pos rfl, if_pos hi] at hb
    cases hb
    exact hat
  · rw [if_neg (by omega), if_neg (by omega)] at hb
    have hj : j - 1 < as.length := (List.getElem?_eq_some_iff.mp hb).1
    have hplace := hmoved (j - 1) b (by omega) hj (h (j - 1) b hb)
    rwa [show j - 1 + 1 = j by omega] at hplace

/-- The elements of a list stay at their places before one that is taken out, and move down
behind it. -/
lemma places_eraseIdx (h : ∀ j b, as[j]? = some b → P j b)
    (hbefore : ∀ j b, j < i → P j b → Q j b)
    (hmoved : ∀ j b, i ≤ j → j + 1 < as.length → P (j + 1) b → Q j b) :
    ∀ j b, (as.eraseIdx i)[j]? = some b → Q j b := by
  intro j b hb
  rw [List.getElem?_eraseIdx] at hb
  split at hb
  · exact hbefore j b ‹_› (h j b hb)
  · have hj : j + 1 < as.length := (List.getElem?_eq_some_iff.mp hb).1
    exact hmoved j b (by omega) hj (h (j + 1) b hb)

end Places

/-! ### Single slots -/

namespace RowFormat

variable {ρ κ : Type} [LinearOrder κ] {R : RowFormat ρ} {key : ρ → κ} {L K : NodeLayout}
  {p q src : Page} {lo up i j n : ℕ} {row : ρ} {rows : List ρ}

lemma Lawful.loadSlot_of_region (hR : R.Lawful key) (hL : L.width = R.leaf.width)
    (hj : L.offset (j + 1) ≤ q.size)
    (hregion : q.region (L.offset j) L.width = p.region (L.offset i) L.width)
    (h : R.loadSlot L i p = .ok row) : R.loadSlot L j q = .ok row := by
  rw [L.offset_succ, hL] at hj
  rw [hL] at hregion
  exact hR.load_of_region hj hregion h

/-- A row outside the changed range is read as before. -/
lemma Lawful.loadSlot_of_sameOutside (hR : R.Lawful key) (hL : L.width = R.leaf.width)
    (hsame : p.SameOutside lo up q) (hi : L.offset (i + 1) ≤ p.size)
    (hapart : L.offset (i + 1) ≤ lo ∨ up ≤ L.offset i) (h : R.loadSlot L i p = .ok row) :
    R.loadSlot L i q = .ok row := by
  refine hR.loadSlot_of_region hL (by rwa [hsame.size]) (hsame.region ?_) h
  rwa [L.offset_succ] at hapart

lemma Lawful.exists_storeSlot (hR : R.Lawful key) (hL : L.width = R.leaf.width)
    (hfits : R.fits row = .ok ()) (hi : L.offset (i + 1) ≤ p.size) :
    ∃ q, R.storeSlot L i row p = (.ok (), q) ∧
      p.SameOutside (L.offset i) (L.offset (i + 1)) q ∧ R.loadSlot L i q = .ok row := by
  rw [L.offset_succ, hL] at hi ⊢
  obtain ⟨bs, q, hlen, hsplice, hstore, hload⟩ := hR.store_ok hi hfits
  exact ⟨q, PageM.change_ok hstore, (Page.sameOutside_splice hsplice).mono le_rfl (by omega), hload⟩

lemma Lawful.exists_copySlot (hR : R.Lawful key) (hL : L.width = R.leaf.width)
    (hK : K.width = R.leaf.width) (hi : L.offset (i + 1) ≤ p.size)
    (hj : K.offset (j + 1) ≤ src.size) (h : R.loadSlot K j src = .ok row) :
    ∃ q, R.copySlot L i K src j p = (.ok (), q) ∧
      p.SameOutside (L.offset i) (L.offset (i + 1)) q ∧ R.loadSlot L i q = .ok row := by
  rw [L.offset_succ, hL] at hi ⊢
  rw [K.offset_succ, hK] at hj
  obtain ⟨bs, q, hlen, hsplice, hcopy, hload⟩ := hR.copy_ok hi hj h
  exact ⟨q, PageM.change_ok hcopy, (Page.sameOutside_splice hsplice).mono le_rfl (by omega), hload⟩

/-! ### Lists of rows -/

lemma SlotsHold.of_sameOutside (h : R.SlotsHold L rows p) (hR : R.Lawful key)
    (hL : L.width = R.leaf.width) (hsame : p.SameOutside lo up q)
    (hin : L.offset rows.length ≤ p.size) (hapart : L.offset rows.length ≤ lo ∨ up ≤ 16) :
    R.SlotsHold L rows q := by
  intro i row hrow
  have hi : i < rows.length := (List.getElem?_eq_some_iff.mp hrow).1
  have hplace := L.offset_mono (show i + 1 ≤ rows.length from hi)
  have hheader := L.header_le_offset i
  exact hR.loadSlot_of_sameOutside hL hsame (by omega) (by omega) (h i row hrow)

lemma SlotsHold.take (h : R.SlotsHold L rows p) (n : ℕ) : R.SlotsHold L (rows.take n) p := by
  intro i row hrow
  rw [List.getElem?_take] at hrow
  split at hrow
  · exact h i row hrow
  · cases hrow

/-- Making room at a slot and writing a row there inserts it into the list. -/
lemma SlotsHold.insert (h : R.SlotsHold L rows p) (hR : R.Lawful key)
    (hL : L.width = R.leaf.width) (hi : i ≤ rows.length) (hfits : R.fits row = .ok ())
    (hin : L.offset (rows.length + 1) ≤ p.size) :
    ∃ r q, Node.openSlot L i rows.length p = (.ok (), r) ∧ R.storeSlot L i row r = (.ok (), q) ∧
      p.SameOutside (L.offset i) (L.offset (rows.length + 1)) q ∧
      R.SlotsHold L (rows.insertIdx i row) q := by
  have hplace := L.offset_mono (show i + 1 ≤ rows.length + 1 by omega)
  obtain ⟨r, hopen, hsame, hmoved⟩ := Node.exists_openSlot hi hin
  obtain ⟨q, hstore, hsame', hload⟩ := hR.exists_storeSlot (p := r) (i := i) hL hfits
    (by rw [hsame.size]; omega)
  refine ⟨r, q, hopen, hstore, ?_, places_insertIdx h hi ?_ hload ?_⟩
  · exact (hsame.mono (L.offset_mono (by omega)) le_rfl).trans (hsame'.mono le_rfl hplace)
  · -- a slot before the new one has not moved
    intro j other hlt hother
    have hbefore := L.offset_mono (show j + 1 ≤ i from hlt)
    have hbefore' := L.offset_mono (show i ≤ i + 1 by omega)
    have hold := hR.loadSlot_of_sameOutside hL hsame (by omega) (by omega) hother
    exact hR.loadSlot_of_sameOutside hL hsame' (by rw [hsame.size]; omega) (by omega) hold
  · -- a slot behind it has moved up by one
    intro j other hij hj hother
    have hjin := L.offset_mono (show j + 1 + 1 ≤ rows.length + 1 by omega)
    have hbehind := L.offset_mono (show i + 1 ≤ j + 1 by omega)
    have hold := hR.loadSlot_of_region hL (by rw [hsame.size]; omega) (hmoved j hij hj) hother
    exact hR.loadSlot_of_sameOutside hL hsame' (by rw [hsame.size]; omega) (by omega) hold

/-- Writing over a row replaces it in the list. -/
lemma SlotsHold.set (h : R.SlotsHold L rows p) (hR : R.Lawful key) (hL : L.width = R.leaf.width)
    (hi : i < rows.length) (hfits : R.fits row = .ok ()) (hin : L.offset rows.length ≤ p.size) :
    ∃ q, R.storeSlot L i row p = (.ok (), q) ∧
      p.SameOutside (L.offset i) (L.offset rows.length) q ∧ R.SlotsHold L (rows.set i row) q := by
  have hplace := L.offset_mono (show i + 1 ≤ rows.length from hi)
  obtain ⟨q, hstore, hsame, hload⟩ := hR.exists_storeSlot (p := p) (i := i) hL hfits (by omega)
  refine ⟨q, hstore, hsame.mono le_rfl hplace, ?_⟩
  intro j other hother
  have hj : j < rows.length := by
    have := (List.getElem?_eq_some_iff.mp hother).1
    rwa [List.length_set] at this
  have hjin := L.offset_mono (show j + 1 ≤ rows.length from hj)
  rw [List.getElem?_set] at hother
  rcases lt_trichotomy i j with hlt | rfl | hgt
  · rw [if_neg (by omega)] at hother
    have hbehind := L.offset_mono (show i + 1 ≤ j from hlt)
    exact hR.loadSlot_of_sameOutside hL hsame (by omega) (by omega) (h j other hother)
  · rw [if_pos rfl, if_pos hi] at hother
    cases hother
    exact hload
  · rw [if_neg (by omega)] at hother
    have hbefore := L.offset_mono (show j + 1 ≤ i from hgt)
    exact hR.loadSlot_of_sameOutside hL hsame (by omega) (by omega) (h j other hother)

/-- Closing a slot takes its row out of the list. -/
lemma SlotsHold.erase (h : R.SlotsHold L rows p) (hR : R.Lawful key) (hL : L.width = R.leaf.width)
    (hi : i < rows.length) (hin : L.offset rows.length ≤ p.size) :
    ∃ q, Node.closeSlot L i rows.length p = (.ok (), q) ∧
      p.SameOutside (L.offset i) (L.offset rows.length) q ∧ R.SlotsHold L (rows.eraseIdx i) q := by
  obtain ⟨q, hclose, hsame, hmoved⟩ := Node.exists_closeSlot hi hin
  refine ⟨q, hclose, hsame, places_eraseIdx h ?_ ?_⟩
  · intro j other hlt hother
    have hbefore := L.offset_mono (show j + 1 ≤ i from hlt)
    have hi' := L.offset_mono hi.le
    exact hR.loadSlot_of_sameOutside hL hsame (by omega) (by omega) hother
  · intro j other hij hj hother
    have hjin := L.offset_mono (show j + 1 ≤ rows.length by omega)
    exact hR.loadSlot_of_region hL (by rw [hsame.size]; omega) (hmoved j hij hj) hother

end RowFormat

/-! ### Copies of slots -/

namespace Tree

variable {ρ κ : Type} [LinearOrder κ] (t : Tree ρ) {key : ρ → κ} {L : NodeLayout}
  {p src : Page} {rows : List ρ}

/-- Copying slots of a page appends a part of its list to what has been copied. -/
lemma exists_copySlots (hR : t.rows.Lawful key) (hL : L.width = t.rows.leaf.width)
    (hsrc : t.rows.SlotsHold L rows src) (hsrcin : L.offset rows.length ≤ src.size) :
    ∀ (n : ℕ) (got : List ρ) {i j : ℕ} {p : Page}, got.length = i → j + n ≤ rows.length →
      L.offset (i + n) ≤ p.size → t.rows.SlotsHold L got p →
      ∃ q, t.copySlots L src n i j p = (.ok (), q) ∧
        p.SameOutside (L.offset i) (L.offset (i + n)) q ∧
        t.rows.SlotsHold L (got ++ (rows.drop j).take n) q := by
  intro n
  -- By induction on how many slots are left; what was copied before stays, since each step writes
  -- behind it.
  induction n with
  | zero =>
      intro got i j p hlen hj hin hgot
      exact ⟨p, rfl, ⟨rfl, fun _ => rfl⟩, by simpa using hgot⟩
  | succ n ih =>
      intro got i j p hlen hj hin hgot
      have hj' : j < rows.length := by omega
      have hsrcplace := L.offset_mono (show j + 1 ≤ rows.length from hj')
      have hplace := L.offset_mono (show i + 1 ≤ i + (n + 1) by omega)
      obtain ⟨r, hcopy, hsame, hload⟩ := hR.exists_copySlot (p := p) (i := i) hL hL (by omega) (by omega)
        (hsrc j _ (List.getElem?_eq_getElem hj'))
      have hgot' : t.rows.SlotsHold L (got ++ [rows[j]]) r := by
        intro k other hother
        rw [List.getElem?_append] at hother
        split at hother
        · rename_i hk
          have hkplace := L.offset_mono (show k + 1 ≤ i by omega)
          have := L.offset_mono (show i ≤ i + 1 by omega)
          exact hR.loadSlot_of_sameOutside hL hsame (by omega) (by omega) (hgot k other hother)
        · have hk : k = i := by
            have := (List.getElem?_eq_some_iff.mp hother).1
            simp only [List.length_singleton] at this
            omega
          subst hk
          simp only [hlen, Nat.sub_self, List.getElem?_cons_zero, Option.some.injEq] at hother
          rwa [← hother]
      obtain ⟨q, hcopies, hsame', hheld⟩ := ih (got ++ [rows[j]]) (i := i + 1) (j := j + 1)
        (p := r) (by simp [hlen]) (by omega)
        (by rw [hsame.size, Nat.add_right_comm]; exact hin) hgot'
      refine ⟨q, ?_, ?_, ?_⟩
      · rw [copySlots, run_bind_ok hcopy]
        exact hcopies
      · rw [Nat.add_right_comm] at hsame'
        exact (hsame.mono le_rfl hplace).trans (hsame'.mono (L.offset_mono (by omega)) le_rfl)
      · rwa [List.append_assoc, List.singleton_append, ← List.take_succ_cons,
          ← List.drop_eq_getElem_cons] at hheld

end Tree

/-! ### Lists of links -/

namespace Node

variable {L : NodeLayout} {p q : Page} {lo up i : ℕ} {links : List PageId} {id : PageId}

lemma LinksHold.of_sameOutside (h : LinksHold L links p) (hsame : p.SameOutside lo up q)
    (hapart : L.linkOffset p.size links.length ≤ lo ∨ up ≤ L.linkOffset p.size 0) :
    LinksHold L links q := by
  intro i id hid
  have hi : i < links.length := (List.getElem?_eq_some_iff.mp hid).1
  rw [link_of_sameOutside hsame ?_]
  · exact h i id hid
  · simp only [L.linkOffset_eq] at hapart ⊢
    omega

lemma LinksHold.take (h : LinksHold L links p) (n : ℕ) : LinksHold L (links.take n) p := by
  intro i id hid
  rw [List.getElem?_take] at hid
  split at hid
  · exact h i id hid
  · cases hid

/-- Putting a link in inserts it into the list. -/
lemma LinksHold.insert (h : LinksHold L links p) (id : PageId) (hi : i ≤ links.length)
    (hin : L.linkOffset p.size (links.length + 1) ≤ p.size) :
    ∃ q, insertLink L i links.length id p = (.ok (), q) ∧
      p.SameOutside (L.linkOffset p.size i) (L.linkOffset p.size (links.length + 1)) q ∧
      LinksHold L (links.insertIdx i id) q := by
  obtain ⟨q, hinsert, hsame, hlink, hmoved⟩ := exists_insertLink (L := L) id hi hin
  refine ⟨q, hinsert, hsame, places_insertIdx h hi ?_ hlink ?_⟩
  · intro j other hlt hother
    rw [link_of_sameOutside hsame (.inl (by simp only [L.linkOffset_eq]; omega))]
    exact hother
  · intro j other hij hj hother
    exact (hmoved j hij hj).trans hother

/-- Taking a link out takes it out of the list. -/
lemma LinksHold.erase (h : LinksHold L links p) (hi : i < links.length)
    (hin : L.linkOffset p.size links.length ≤ p.size) :
    ∃ q, removeLink L i links.length p = (.ok (), q) ∧
      p.SameOutside (L.linkOffset p.size i) (L.linkOffset p.size links.length) q ∧
      LinksHold L (links.eraseIdx i) q := by
  obtain ⟨q, hremove, hsame, hmoved⟩ := exists_removeLink (L := L) hi hin
  refine ⟨q, hremove, hsame, places_eraseIdx h ?_ ?_⟩
  · intro j other hlt hother
    rw [link_of_sameOutside hsame (.inl (by simp only [L.linkOffset_eq]; omega))]
    exact hother
  · intro j other hij hj hother
    exact (hmoved j hij hj).trans hother

end Node

end PageCatalog
