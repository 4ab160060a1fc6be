import Mathlib.Tactic
import PageCatalog.Proofs.Node.Leaf

/-!
Inner nodes.

A page is an inner node with a list of separators and a list of links, one more, if
its header says so, the separators fit, and slots and links hold the lists. Every step
on an inner node leaves an inner node.

* `RowFormat.InnerPage`: a page as an inner node.
* `Tree.kind_inner`, `Tree.content_inner`: how a tree meets it.
* `Tree.exists_insertSeparator`, `exists_eraseLink`, `exists_cutInner`,
  `exists_fillRightInner`, `exists_fillRoot`: the steps.
* `Tree.onlyChild?_inner`, `Tree.clearRoot_leaf`: the questions to a root.
-/

namespace PageCatalog

/-- A page holds an inner node with the given id, separators and links. -/
structure RowFormat.InnerPage {ρ : Type} (R : RowFormat ρ) (id : PageId) (keys : List ρ)
    (links : List PageId) (p : Page) : Prop where
  head : Node.Head R.inner id keys.length p
  room : keys.length ≤ R.inner.capacity p.size
  length_links : links.length = keys.length + 1
  slots : R.SlotsHold R.inner keys p
  links : Node.LinksHold R.inner links p

namespace Tree

open RowFormat

variable {ρ κ : Type} [LinearOrder κ] (t : Tree ρ) {key : ρ → κ} {id : PageId} {keys : List ρ}
  {links : List PageId} {p : Page} {i : ℕ} {sep : ρ}

/-! ### Reading an inner node -/

lemma kind_inner (hR : t.rows.Lawful key) (h : t.rows.InnerPage id keys links p) :
    t.kind id p = .ok .inner := by
  have hroom : ¬ t.rows.inner.capacity p.size < keys.length := by
    have := h.room
    omega
  simp [kind, h.head.tag, h.head.check, h.head.self, h.head.count, hroom, hR.tag_ne.symm, bind,
    Except.bind, pure, Except.pure]

lemma content_inner (hR : t.rows.Lawful key) (h : t.rows.InnerPage id keys links p) :
    t.content id p = .ok (.inner links) := by
  simp only [content, h.head.count, t.kind_inner hR h, bind, Except.bind]
  rw [← h.length_links, range_mapM h.links]
  rfl

lemma onlyChild?_leaf {rows : List ρ} (h : t.rows.LeafPage id rows p) :
    t.onlyChild? id p = .ok none := by
  simp [onlyChild?, t.kind_leaf h, bind, Except.bind, pure, Except.pure]

lemma onlyChild?_inner (hR : t.rows.Lawful key) (h : t.rows.InnerPage id keys links p) :
    t.onlyChild? id p = .ok (if keys = [] then links[0]? else none) := by
  simp only [onlyChild?, t.kind_inner hR h, h.head.count, bind, Except.bind, pure, Except.pure]
  cases keys with
  | nil =>
      have hlen := h.length_links
      have h0 : links[0]? = some links[0] := List.getElem?_eq_getElem (by rw [hlen]; simp)
      simp only [List.length_nil, lt_irrefl, if_false, if_true, h.links 0 _ h0, h0]
      rfl
  | cons k ks => simp

lemma clearRoot_leaf {rows : List ρ} (h : t.rows.LeafPage id rows p) :
    t.clearRoot id p = (.ok false, p) := by
  rw [clearRoot, run_bind_ok (PageM.look_ok (t.kind_leaf h))]
  rfl

/-! ### Copies of links -/

/-- Copying links of a page appends a part of its list to what has been copied. -/
lemma exists_copyLinks {src : Page} (first : ℕ) (hsrc : Node.LinksHold t.rows.inner links src) :
    ∀ (n : ℕ) (got : List PageId) {i j : ℕ} {p : Page}, got.length = i → j + n ≤ links.length →
      t.rows.inner.linkOffset p.size (i + n) ≤ p.size → first ≤ i →
      Node.LinksHold t.rows.inner got p →
      ∃ q, t.copyLinks src n i j p = (.ok (), q) ∧
        p.SameOutside (t.rows.inner.linkOffset p.size first)
          (t.rows.inner.linkOffset p.size (i + n)) q ∧
        Node.LinksHold t.rows.inner (got ++ (links.drop j).take n) q := by
  intro n
  -- By induction on how many links are left; what was copied before stays, since each step writes
  -- behind it.
  induction n with
  | zero =>
      intro got i j p hlen hj hin hfirst hgot
      exact ⟨p, rfl, ⟨rfl, fun _ => rfl⟩, by simpa using hgot⟩
  | succ n ih =>
      intro got i j p hlen hj hin hfirst hgot
      have heq := t.rows.inner.linkOffset_eq p.size
      have hj' : j < links.length := by omega
      obtain ⟨r, hset, hsame, hlink⟩ := Node.exists_setLink (L := t.rows.inner) (p := p) (i := i)
        links[j] (by rw [heq] at hin ⊢; omega)
      have hgot' : Node.LinksHold t.rows.inner (got ++ [links[j]]) r := by
        intro k other hother
        rw [List.getElem?_append] at hother
        split at hother
        · rename_i hk
          rw [Node.link_of_sameOutside hsame (.inl (by simp only [heq]; omega))]
          exact hgot k other hother
        · have hk : k = i := by
            have := (List.getElem?_eq_some_iff.mp hother).1
            simp only [List.length_singleton] at this
            omega
          subst hk
          simp only [hlen, Nat.sub_self, List.getElem?_cons_zero, Option.some.injEq] at hother
          rwa [← hother]
      obtain ⟨q, hcopies, hsame', hheld⟩ := ih (got ++ [links[j]]) (i := i + 1) (j := j + 1)
        (p := r) (by simp [hlen]) (by omega)
        (by rw [hsame.size, Nat.add_right_comm]; exact hin) (by omega) hgot'
      rw [hsame.size] at hsame'
      refine ⟨q, ?_, ?_, ?_⟩
      · have hlook : PageM.look (fun _ => Node.link t.rows.inner j src) p = (.ok links[j], p) :=
          PageM.look_ok (hsrc j _ (List.getElem?_eq_getElem hj'))
        rw [copyLinks, run_bind_ok hlook, run_bind_ok hset]
        exact hcopies
      · rw [Nat.add_right_comm] at hsame'
        refine (hsame.mono ?_ ?_).trans hsame' <;> simp only [heq] <;> omega
      · rwa [List.append_assoc, List.singleton_append, ← List.take_succ_cons,
          ← List.drop_eq_getElem_cons] at hheld

/-! ### Steps on an inner node -/

lemma exists_initInner (hR : t.rows.Lawful key) (hp : p.Usual) (id : PageId) :
    ∃ q, Node.init t.rows.inner id p = (.ok (), q) ∧ q.size = p.size ∧
      Node.Head t.rows.inner id 0 q := by
  obtain ⟨q, hq, hsame, hhead⟩ := Node.exists_init (p := p) id hR.inner_tag_lt hR.inner_latest
    hp.header_le
  exact ⟨q, hq, hsame.size, hhead⟩

/-- A separator and the link behind it inserted into an inner node that is not full. -/
lemma exists_insertSeparator (hR : t.rows.Lawful key) (hp : p.Usual)
    (h : t.rows.InnerPage id keys links p) (hi : i ≤ keys.length)
    (hroom : keys.length < t.rows.inner.capacity p.size) (hfits : t.rows.fits sep = .ok ())
    (right : PageId) :
    ∃ q, t.insertSeparator i sep right p = (.ok (), q) ∧ q.size = p.size ∧
      t.rows.InnerPage id (keys.insertIdx i sep) (links.insertIdx (i + 1) right) q := by
  have hcapacity := t.rows.inner.capacity_lt hp.2
  have hlinks := h.length_links
  have hplace := t.rows.inner.offset_mono hroom
  have hin := hplace.trans (t.rows.inner.offset_capacity_le hp.header_le)
  have hbefore : t.rows.inner.offset (keys.length + 1) ≤ t.rows.inner.linkOffset p.size 0 :=
    t.rows.inner.offset_le_linkOffset hroom
  -- A slot is opened and filled, then a link; the slots end where the links begin, so one does
  -- not touch the other.
  obtain ⟨r, u, hopen, hstore, hsame, hslots⟩ :=
    h.slots.insert hR hR.inner_width hi hfits hin
  have hheld := h.links.of_sameOutside hsame (.inr hbefore)
  obtain ⟨v, hinsert, hsame', hlinks'⟩ := hheld.insert (i := i + 1) right (by omega)
    (by rw [hsame.size]
        exact t.rows.inner.linkOffset_le hR.inner_isLeaf hp.header_le (by omega))
  rw [hsame.size] at hsame'
  have hheader := t.rows.inner.header_le_offset i
  have hheader' := t.rows.inner.header_le_offset (t.rows.inner.capacity p.size)
  have hbehind : t.rows.inner.offset (keys.length + 1)
      ≤ t.rows.inner.linkOffset p.size (i + 1) := t.rows.inner.offset_le_linkOffset hroom
  obtain ⟨q, hcount, hsame'', hhead⟩ := Node.exists_setCount (m := keys.length + 1)
    ((h.head.of_sameOutside hsame hheader).of_sameOutside hsame' (by
      rw [t.rows.inner.linkOffset_eq]; omega))
    (by omega) (by rw [hsame'.size, hsame.size]; exact hp.header_le)
  have hlen : (keys.insertIdx i sep).length = keys.length + 1 :=
    List.length_insertIdx_of_le_length hi sep
  have hsize : q.size = p.size := by rw [hsame''.size, hsame'.size, hsame.size]
  refine ⟨q, ?_, hsize, ?_, ?_, ?_, ?_, ?_⟩
  · rw [insertSeparator, run_bind_ok (PageM.look_ok h.head.count), run_bind_ok hopen,
      run_bind_ok hstore, ← hlinks, run_bind_ok hinsert, hlinks, hcount]
  · rwa [hlen]
  · rw [hlen, hsize]
    exact hroom
  · rw [hlen, List.length_insertIdx_of_le_length (by omega), hlinks]
  · refine (hslots.of_sameOutside hR hR.inner_width hsame' ?_ ?_).of_sameOutside hR hR.inner_width
      hsame'' ?_ (.inr (by omega))
    · rw [hlen, hsame.size]
      exact hin
    · rw [hlen]
      exact .inl hbehind
    · rw [hlen, hsame'.size, hsame.size]
      exact hin
  · refine hlinks'.of_sameOutside hsame'' (.inr ?_)
    rw [t.rows.inner.linkOffset_eq, hsame'.size, hsame.size]
    omega

/-- A node with separators loses a link and the separator before it, or the first one. -/
lemma exists_eraseLink (hR : t.rows.Lawful key) (hp : p.Usual)
    (h : t.rows.InnerPage id keys links p) (hkeys : keys ≠ []) (hi : i < links.length) :
    ∃ q, t.eraseLink i p = (.ok false, q) ∧ q.size = p.size ∧
      t.rows.InnerPage id (keys.eraseIdx (i - 1)) (links.eraseIdx i) q := by
  have hcapacity := t.rows.inner.capacity_lt hp.2
  have hlinks := h.length_links
  have hroom := h.room
  have hpos : 0 < keys.length := List.length_pos_iff.mpr hkeys
  have hplace := t.rows.inner.offset_mono h.room
  have hin := hplace.trans (t.rows.inner.offset_capacity_le hp.header_le)
  have hbefore : t.rows.inner.offset keys.length ≤ t.rows.inner.linkOffset p.size 0 :=
    t.rows.inner.offset_le_linkOffset h.room
  -- A slot is closed, then a link; the slots end where the links begin, so one does not touch the
  -- other.
  obtain ⟨r, hclose, hsame, hslots⟩ :=
    h.slots.erase (i := i - 1) hR hR.inner_width (by omega) hin
  have hheld := h.links.of_sameOutside hsame (.inr hbefore)
  obtain ⟨v, hremove, hsame', hlinks'⟩ := hheld.erase hi
    (by rw [hsame.size]
        exact t.rows.inner.linkOffset_le hR.inner_isLeaf hp.header_le (by omega))
  rw [hsame.size] at hsame'
  have hheader := t.rows.inner.header_le_offset (i - 1)
  have hheader' := t.rows.inner.header_le_offset (t.rows.inner.capacity p.size)
  have hbehind : t.rows.inner.offset keys.length ≤ t.rows.inner.linkOffset p.size i :=
    t.rows.inner.offset_le_linkOffset h.room
  obtain ⟨q, hcount, hsame'', hhead⟩ := Node.exists_setCount (m := keys.length - 1)
    ((h.head.of_sameOutside hsame hheader).of_sameOutside hsame' (by
      rw [t.rows.inner.linkOffset_eq]; omega))
    (by omega) (by rw [hsame'.size, hsame.size]; exact hp.header_le)
  have hlen : (keys.eraseIdx (i - 1)).length = keys.length - 1 :=
    List.length_eraseIdx_of_lt (by omega)
  have hshort := t.rows.inner.offset_mono (show keys.length - 1 ≤ keys.length by omega)
  have hsize : q.size = p.size := by rw [hsame''.size, hsame'.size, hsame.size]
  have hnonzero : ¬ keys.length = 0 := by omega
  refine ⟨q, ?_, hsize, ?_, ?_, ?_, ?_, ?_⟩
  · rw [eraseLink, run_bind_ok (PageM.look_ok h.head.count), if_neg hnonzero, run_bind_ok hclose,
      ← hlinks, run_bind_ok hremove, run_bind_ok hcount]
    rfl
  · rwa [hlen]
  · rw [hlen, hsize]
    omega
  · rw [hlen, List.length_eraseIdx_of_lt hi]
    omega
  · refine (hslots.of_sameOutside hR hR.inner_width hsame' ?_ ?_).of_sameOutside hR hR.inner_width
      hsame'' ?_ (.inr (by omega))
    · rw [hlen, hsame.size]
      omega
    · rw [hlen]
      exact .inl (by omega)
    · rw [hlen, hsame'.size, hsame.size]
      omega
  · refine hlinks'.of_sameOutside hsame'' (.inr ?_)
    rw [t.rows.inner.linkOffset_eq, hsame'.size, hsame.size]
    omega

/-- A node without separators says that nothing is left of it. -/
lemma eraseLink_keyless (h : t.rows.InnerPage id [] links p) (i : ℕ) :
    t.eraseLink i p = (.ok true, p) := by
  rw [eraseLink, run_bind_ok (PageM.look_ok h.head.count), if_pos List.length_nil]
  rfl

/-- The left half of an inner node keeps its first separators and links. -/
lemma exists_cutInner (hR : t.rows.Lawful key) (hp : p.Usual)
    (h : t.rows.InnerPage id keys links p) {m : ℕ} (hm : m ≤ keys.length) :
    ∃ q, Node.setCount m p = (.ok (), q) ∧ q.size = p.size ∧
      t.rows.InnerPage id (keys.take m) (links.take (m + 1)) q := by
  have hcapacity := t.rows.inner.capacity_lt hp.2
  have hroom := h.room
  have hlinks := h.length_links
  have hin := (t.rows.inner.offset_mono (hm.trans h.room)).trans
    (t.rows.inner.offset_capacity_le hp.header_le)
  have hheader := t.rows.inner.header_le_offset (t.rows.inner.capacity p.size)
  obtain ⟨q, hcount, hsame, hhead⟩ := Node.exists_setCount (m := m) h.head (by omega) hp.header_le
  have hlen : (keys.take m).length = m := List.length_take_of_le hm
  refine ⟨q, hcount, hsame.size, by rwa [hlen], by rw [hlen, hsame.size]; omega, ?_, ?_, ?_⟩
  · rw [hlen, List.length_take_of_le (by omega)]
  · exact (h.slots.take m).of_sameOutside hR hR.inner_width hsame (by rwa [hlen]) (.inr (by omega))
  · refine (h.links.take (m + 1)).of_sameOutside hsame (.inr ?_)
    rw [t.rows.inner.linkOffset_eq]
    omega

/-- The right half of an inner node is filled with what stands behind a separator. -/
lemma exists_fillRightInner (hR : t.rows.Lawful key) {left : Page} (hleft : left.Usual)
    (hp : p.size = left.size) (h : t.rows.InnerPage id keys links left) {m : ℕ}
    (hm : m < keys.length) (right : PageId) :
    ∃ q, t.fillRightInner right left m keys.length p = (.ok (), q) ∧ q.size = left.size ∧
      t.rows.InnerPage right (keys.drop (m + 1)) (links.drop (m + 1)) q := by
  have hcapacity := t.rows.inner.capacity_lt hleft.2
  have hroom := h.room
  have hlinks := h.length_links
  have hplace := t.rows.inner.offset_mono h.room
  have hin := hplace.trans (t.rows.inner.offset_capacity_le hleft.header_le)
  have hpart := t.rows.inner.offset_mono (show keys.length - m - 1 ≤ keys.length by omega)
  have hlinksin := t.rows.inner.linkOffset_le (i := keys.length - m) hR.inner_isLeaf
    hleft.header_le (by omega)
  have hheader := t.rows.inner.header_le_offset 0
  have hheader' := t.rows.inner.header_le_offset (t.rows.inner.capacity left.size)
  -- The steps in their order: an empty node, the separators, the links, the count. The links
  -- stand behind all slots, so none of these writes over another.
  obtain ⟨r, hinit, hsize, hempty⟩ := t.exists_initInner hR (hleft.of_size hp) right
  obtain ⟨u, hcopies, hsame, hslots⟩ := t.exists_copySlots hR hR.inner_width h.slots hin
    (keys.length - m - 1) [] (i := 0) (j := m + 1) (p := r) rfl (by omega)
    (by rw [Nat.zero_add, hsize, hp]; omega) (fun i row hrow => by simp at hrow)
  have hu : u.size = left.size := by rw [hsame.size, hsize, hp]
  obtain ⟨v, hcopies', hsame', hheld⟩ := t.exists_copyLinks 0 h.links
    (keys.length - m) [] (i := 0) (j := m + 1) (p := u) rfl (by omega)
    (by rw [Nat.zero_add, hu]; exact hlinksin) le_rfl (fun i row hrow => by simp at hrow)
  obtain ⟨q, hcount, hsame'', hhead⟩ := Node.exists_setCount (m := keys.length - m - 1)
    ((hempty.of_sameOutside hsame hheader).of_sameOutside hsame' (by
      rw [t.rows.inner.linkOffset_eq, hu]; omega))
    (by omega) (by rw [hsame'.size, hu]; exact hleft.header_le)
  -- What was copied is all that stands behind the separator.
  have hlen : (keys.drop (m + 1)).length = keys.length - m - 1 := by
    rw [List.length_drop]
    omega
  have hall : (keys.drop (m + 1)).take (keys.length - m - 1) = keys.drop (m + 1) :=
    List.take_of_length_le (by rw [hlen])
  have hall' : (links.drop (m + 1)).take (keys.length - m) = links.drop (m + 1) :=
    List.take_of_length_le (by rw [List.length_drop]; omega)
  rw [List.nil_append, hall] at hslots
  rw [List.nil_append, hall'] at hheld
  have hq : q.size = left.size := by rw [hsame''.size, hsame'.size, hu]
  refine ⟨q, ?_, hq, ?_, ?_, ?_, ?_, ?_⟩
  · rw [fillRightInner, run_bind_ok hinit, run_bind_ok hcopies, run_bind_ok hcopies', hcount]
  · rwa [hlen]
  · rw [hlen, hq]
    omega
  · rw [hlen, List.length_drop]
    omega
  · refine (hslots.of_sameOutside hR hR.inner_width hsame' ?_ ?_).of_sameOutside hR hR.inner_width
      hsame'' ?_ (.inr (by omega))
    · rw [hlen, hu]
      omega
    · rw [hlen, hu]
      exact .inl (t.rows.inner.offset_le_linkOffset (by omega))
    · rw [hlen, hsame'.size, hu]
      omega
  · refine hheld.of_sameOutside hsame'' (.inr ?_)
    rw [t.rows.inner.linkOffset_eq, hsame'.size, hu]
    omega

/-- An inner root becomes an empty leaf. -/
lemma exists_clearRoot (hR : t.rows.Lawful key) (hp : p.Usual)
    (h : t.rows.InnerPage id keys links p) :
    ∃ q, t.clearRoot id p = (.ok true, q) ∧ q.size = p.size ∧ t.rows.LeafPage id [] q := by
  obtain ⟨q, hinit, hsize, hq⟩ := t.exists_initLeaf hR hp id
  refine ⟨q, ?_, hsize, hq⟩
  rw [clearRoot, run_bind_ok (PageM.look_ok (t.kind_inner hR h))]
  simp only
  rw [run_bind_ok hinit]
  rfl

/-- A new root stands above two nodes. -/
lemma exists_fillRoot (hR : t.rows.Lawful key) (hp : p.Usual)
    (hroom : 1 ≤ t.rows.inner.capacity p.size) (hfits : t.rows.fits sep = .ok ())
    (id left right : PageId) :
    ∃ q, t.fillRoot id left sep right p = (.ok (), q) ∧ q.size = p.size ∧
      t.rows.InnerPage id [sep] [left, right] q := by
  have heq := t.rows.inner.linkOffset_eq p.size
  have hin := (t.rows.inner.offset_mono hroom).trans (t.rows.inner.offset_capacity_le hp.header_le)
  have hlinksin := t.rows.inner.linkOffset_le (i := 2) hR.inner_isLeaf hp.header_le (by omega)
  have hheader := t.rows.inner.header_le_offset 0
  have hheader' := t.rows.inner.header_le_offset (t.rows.inner.capacity p.size)
  -- The steps in their order: an empty node, the separator, both links, the count. Each of them
  -- stays in a place of its own.
  obtain ⟨r, hinit, hsize, hempty⟩ := t.exists_initInner hR hp id
  obtain ⟨u, hstore, hsame, hload⟩ := hR.exists_storeSlot (p := r) (i := 0) (L := t.rows.inner)
    hR.inner_width hfits (by rw [hsize]; exact hin)
  have hu : u.size = p.size := by rw [hsame.size, hsize]
  obtain ⟨v, hset, hsame₁, hlink₁⟩ := Node.exists_setLink (L := t.rows.inner) (p := u) (i := 0) left
    (by rw [hu, heq] at *; omega)
  obtain ⟨w, hset', hsame₂, hlink₂⟩ := Node.exists_setLink (L := t.rows.inner) (p := v) (i := 1)
    right (by rw [hsame₁.size, hu]; exact hlinksin)
  rw [hu] at hsame₁
  rw [hsame₁.size, hu] at hsame₂
  have hlast : t.rows.inner.offset 1 ≤ t.rows.inner.linkOffset p.size 0 :=
    t.rows.inner.offset_le_linkOffset hroom
  have hlinks : t.rows.inner.linkOffset p.size 0 ≤ t.rows.inner.linkOffset p.size 1 := by
    simp only [heq]
    omega
  obtain ⟨q, hcount, hsame₃, hhead⟩ := Node.exists_setCount (m := 1)
    (((hempty.of_sameOutside hsame hheader).of_sameOutside hsame₁ (by simp only [heq]; omega)
      ).of_sameOutside hsame₂ (by simp only [heq]; omega))
    (by decide) (by rw [hsame₂.size, hsame₁.size, hu]; exact hp.header_le)
  have hq : q.size = p.size := by rw [hsame₃.size, hsame₂.size, hsame₁.size, hu]
  refine ⟨q, ?_, hq, hhead, by rw [hq]; exact hroom, rfl, ?_, ?_⟩
  · rw [fillRoot, run_bind_ok hinit, run_bind_ok hstore, run_bind_ok hset, run_bind_ok hset',
      hcount]
  · -- the one slot that there is
    have hslots : t.rows.SlotsHold t.rows.inner [sep] u := by
      intro i row hrow
      obtain ⟨rfl, rfl⟩ : i = 0 ∧ sep = row := by
        cases i with
        | zero => simpa using hrow
        | succ i => simp at hrow
      exact hload
    refine ((hslots.of_sameOutside hR hR.inner_width hsame₁ ?_ (.inl hlast)).of_sameOutside hR
      hR.inner_width hsame₂ ?_ (.inl (hlast.trans hlinks))).of_sameOutside hR hR.inner_width
      hsame₃ ?_ (.inr (by omega))
    · rwa [hu]
    · rwa [hsame₁.size, hu]
    · rwa [hsame₂.size, hsame₁.size, hu]
  · have hheld : Node.LinksHold t.rows.inner [left, right] w := by
      intro i child hchild
      match i, hchild with
      | 0, hchild =>
          obtain rfl : left = child := by simpa using hchild
          rw [Node.link_of_sameOutside hsame₂ (.inl (by rw [hsame₁.size, hu]))]
          exact hlink₁
      | 1, hchild =>
          obtain rfl : right = child := by simpa using hchild
          exact hlink₂
    refine hheld.of_sameOutside hsame₃ (.inr ?_)
    rw [t.rows.inner.linkOffset_eq, hsame₂.size, hsame₁.size, hu]
    omega

end Tree

end PageCatalog
