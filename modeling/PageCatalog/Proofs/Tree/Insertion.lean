import Mathlib.Tactic
import PageCatalog.Tree.Put
import PageCatalog.Proofs.Tree.Growth
import PageCatalog.Proofs.Tree.Stored

/-!
Putting a row into a held tree.

What the steps of an insertion do to the pages is what the shape of the tree becomes
when the row is put into it. All loading is done on the way down; from the leaf on
every page that is needed is in memory or new, and the only way to fail is the lack of
a new page.

* `Tree.PutStored`: the pages after an insertion, against what becomes of a shape.
* `Tree.Grows`: that, the pages that may have changed, and the indexes that were taken.
* `Tree.Halves`, `Tree.cut_run`: a page that is cut in two, and what is done to the halves.
* `Tree.putInLeaf_ends`, `Tree.putSeparator_ends`, `Tree.putAbove_ends`: leaves and inner nodes.
* `Tree.putFrom_ends`, `Tree.Holds.put_ends`: parts of a tree, and whole ones.
-/

namespace PageCatalog

namespace Tree

variable {ρ κ δ : Type} [LinearOrder κ] [Device δ] {B : Backing δ} {t : Tree ρ} {key : ρ → κ}
  {s : Session δ} {h : ℕ} {id : PageId} {rows keys : List ρ} {p : Page} {row : ρ} {i n : ℕ}

variable (B t) in
/-- The result of an insertion and the pages after it are those of a grown shape. -/
def PutStored (s : Session δ) (r : PutResult ρ) : Grown ρ h → Prop
  | .whole old T => r = ⟨old, none⟩ ∧ T.Stored B t.rows t.cache s
  | .cut l sep right =>
      r = ⟨none, some (sep, right.id)⟩ ∧ l.Stored B t.rows t.cache s ∧
        right.Stored B t.rows t.cache s ∧ t.rows.fits sep = .ok ()
  | .short _ => False

variable (B t) in
/-- An insertion lacked a page, and the pages after it are those of what is linked. -/
def PutShort (s : Session δ) (e : Failure) : Grown ρ h → Prop
  | .short T => e = .error (.outOfSpace t.cache) ∧ T.Stored B t.rows t.cache s
  | _ => False

variable (B) in
/-- An insertion did to the pages what it does to a shape, as `stored` says: beside them only new
pages have changed, and as many pages were taken as the shape takes indexes. -/
structure Grows (s : Session δ) (c : CacheId) (changed : List ℕ) (g : Grown ρ h × ℕ)
    (stored : Grown ρ h → Prop) (s' : Session δ) : Prop where
  stored : stored g.1
  keeps : s.Keeps B c changed s'
  next : s'.next? c = some g.2

lemma Grows.after {c : CacheId} {before changed all : List ℕ} {g : Grown ρ h × ℕ}
    {stored : Grown ρ h → Prop} {s₁ s' : Session δ} (hg : Grows B s₁ c changed g stored s')
    (hkeeps : s.Keeps B c before s₁) (hbefore : before ⊆ all) (hchanged : changed ⊆ all) :
    Grows B s c all g stored s' :=
  ⟨hg.stored, (hkeeps.mono hbefore).trans (hg.keeps.mono hchanged), hg.next⟩

/-! ### Pages that are cut in two -/

variable {q p' q' : Page} {new : PageId} {s' : Session δ}

variable (B) in
/-- A page was cut in two: the page and the next one of the cache are in memory, and no other page
has changed. -/
structure Halves (s : Session δ) (c : CacheId) (id new : PageId) (p q : Page) (s' : Session δ) :
    Prop where
  fresh : s.next? c = some new.index
  apart : id.index ≠ new.index
  left : s'.InMemory c id.index p
  right : s'.InMemory c new.index q
  keeps : s.Keeps B c [id.index] s'
  next : s'.next? c = some (new.index + 1)

lemma Halves.edit_left {c : CacheId} (h : Halves B s c id new p q s') {m : PageM Unit}
    (hm : m p = (.ok (), p')) :
    ∃ s'', Session.edit c id m s' = (.ok (), s'') ∧ Halves B s c id new p' q s'' := by
  obtain ⟨s'', hedit, hp', hkeeps, hnext⟩ := Session.edit_memory (B := B) h.left hm
  exact ⟨s'', hedit, h.fresh, h.apart, hp', hkeeps.memory (by simpa using h.apart.symm) h.right,
    h.keeps.trans hkeeps, hnext.trans h.next⟩

lemma Halves.edit_right {c : CacheId} (h : Halves B s c id new p q s') {m : PageM Unit}
    (hm : m q = (.ok (), q')) :
    ∃ s'', Session.edit c new m s' = (.ok (), s'') ∧ Halves B s c id new p q' s'' := by
  obtain ⟨s'', hedit, hq', hkeeps, hnext⟩ := Session.edit_memory (B := B) h.right hm
  exact ⟨s'', hedit, h.fresh, h.apart, hkeeps.memory (by simpa using h.apart) h.left, hq',
    h.keeps.fresh h.fresh hkeeps (by simp), hnext.trans h.next⟩

/-- A new page is filled from a page in memory, which then keeps what did not go there. -/
lemma cut_run {F : PageId → Page → PageM Unit} {K : PageM Unit} (hp : s.InMemory t.cache id.index p)
    (hn : s.next? t.cache = some n) (hlimit : n < CacheFile.indexLimit)
    (hfill : F (t.rows.nodeId n) p (.zeros s.size) = (.ok (), q)) (hkeep : K p = (.ok (), p')) :
    ∃ s', Halves B s t.cache id (t.rows.nodeId n) p' q s' ∧
      ∀ {α : Type} (rest : PageId → SessionM δ α), (do
        let right ← t.allocate
        let left ← Session.view t.cache id pure
        Session.edit t.cache right (F right left)
        Session.edit t.cache id K
        rest right) s = rest (t.rows.nodeId n) s' := by
  set right := t.rows.nodeId n with hright
  have hindex : right.index = n := Shape.index_nodeId t.rows (by omega)
  have hne : id.index ≠ right.index := by
    have := hp.lt hn
    omega
  obtain ⟨s₁, hallocate, hnew, hkeeps₁, hnext₁⟩ :=
    Session.allocate_ok (B := B) hn hlimit t.rows.partition t.rows.space
  rw [← hindex] at hn hnew hnext₁
  have hp₁ := hkeeps₁.memory List.not_mem_nil hp
  -- The halves begin as the whole node and a page of zeros; each edit replaces one of them.
  have hhalves : Halves B s t.cache id right p (.zeros s.size) s₁ :=
    ⟨hn, hne, hp₁, hnew, hkeeps₁.mono (by simp), hnext₁⟩
  obtain ⟨s₂, hedit₂, hhalves₂⟩ := hhalves.edit_right hfill
  obtain ⟨s₃, hedit₃, hhalves₃⟩ := hhalves₂.edit_left hkeep
  refine ⟨s₃, hhalves₃, fun rest => ?_⟩
  have hview : Session.view t.cache id pure s₁ = (.ok p, s₁) := Session.view_memory hp₁
  rw [allocate, run_bind_ok hallocate, run_bind_ok hview]
  exact (run_bind_ok hedit₂ _).trans (run_bind_ok hedit₃ _)

/-! ### Leaves -/

/-- A page of a leaf in memory stores the leaf. -/
lemma stored_of_leafPage (hp : s.InMemory t.cache id.index p) (hsize : p.size = s.size)
    (hpage : t.rows.LeafPage id rows p) : (Shape.leaf id rows).Stored B t.rows t.cache s :=
  ⟨p, hp.shows, hsize, hpage⟩

/-- A full leaf is cut behind as many rows as its shape is. -/
lemma splitLeaf_ok (hR : t.rows.Lawful key) (husual : p.Usual)
    (hp : s.InMemory t.cache id.index p) (hsize : p.size = s.size)
    (hpage : t.rows.LeafPage id rows p) (hcap : 2 ≤ rows.length) (hi : i ≤ rows.length)
    (hfits : t.rows.fits row = .ok ()) (hn : s.next? t.cache = some n)
    (hlimit : n < CacheFile.indexLimit) :
    ∃ sep s', t.splitLeaf id rows.length i row s
        = (.ok ⟨none, some (sep, t.rows.nodeId n)⟩, s') ∧
      (rows.insertIdx i row)[cutPoint rows.length i]? = some sep ∧ t.rows.fits sep = .ok () ∧
      (Shape.leaf id ((rows.insertIdx i row).take (cutPoint rows.length i))).Stored B t.rows t.cache s' ∧
      (Shape.leaf (t.rows.nodeId n) ((rows.insertIdx i row).drop (cutPoint rows.length i))).Stored
        B t.rows t.cache s' ∧
      s.Keeps B t.cache [id.index] s' ∧ s'.next? t.cache = some (n + 1) := by
  set right := t.rows.nodeId n with hright
  set mid := rows.length / 2 with hmid
  have hindex : right.index = n := Shape.index_nodeId t.rows (by omega)
  have hroom := hpage.room
  -- the upper half of the rows goes to a new page, the lower half stays
  have hzeros : (Page.zeros s.size).size = p.size := by rw [Page.size_zeros, hsize]
  obtain ⟨q, hfill, hqsize, hq⟩ := t.exists_fillRightLeaf hR husual hzeros hpage
    (show mid ≤ rows.length by omega) right
  obtain ⟨p', hcut, hpsize', hp'⟩ := t.exists_cutLeaf hR husual hpage (show mid ≤ rows.length by omega)
  obtain ⟨s₃, hhalves, hrun⟩ := cut_run (B := B)
    (F := fun right left => t.fillRightLeaf right left mid rows.length) hp hn hlimit hfill hcut
  have hlen₁ : (rows.take mid).length = mid := List.length_take_of_le (by omega)
  have hlen₂ : (rows.drop mid).length = rows.length - mid := List.length_drop
  have hmid' : mid < rows.length := by omega
  set all := rows.insertIdx i row with hall
  set m := cutPoint rows.length i with hm
  -- the new row comes into one of the halves
  obtain ⟨s₄, p₄, q₄, hinsert, hhalves₄, hpsize₄, hqsize₄, hpage₄, hnew₄⟩ :
      ∃ s₄ p₄ q₄, (if i ≤ mid then Session.edit t.cache id (t.insertRow i row)
          else Session.edit t.cache right (t.insertRow (i - mid) row)) s₃ = (.ok (), s₄) ∧
        Halves B s t.cache id right p₄ q₄ s₄ ∧ p₄.size = s.size ∧ q₄.size = s.size ∧
        t.rows.LeafPage id (all.take m) p₄ ∧ t.rows.LeafPage right (all.drop m) q₄ := by
    by_cases hlow : i ≤ mid
    · have hm' : m = mid + 1 := by rw [hm, cutPoint, ← hmid, if_pos hlow]
      obtain ⟨p₄, hrow, hpsize₄, hpage₄⟩ := t.exists_insertRow hR (husual.of_size hpsize') hp'
        (show i ≤ (rows.take mid).length by omega) (by rw [hpsize']; omega) hfits
      obtain ⟨s₄, hedit₄, hhalves₄⟩ := hhalves.edit_left hrow
      refine ⟨s₄, p₄, q, by rw [if_pos hlow, hedit₄], hhalves₄, by omega, by omega, ?_, ?_⟩
      · rwa [hm', ← insertIdx_take _ _ hlow]
      · rwa [hm', hall, drop_insertIdx_of_le _ _ hlow]
    · have hm' : m = mid := by rw [hm, cutPoint, ← hmid, if_neg hlow]
      obtain ⟨q₄, hrow, hqsize₄, hnew₄⟩ := t.exists_insertRow hR (husual.of_size hqsize) hq
        (show i - mid ≤ (rows.drop mid).length by omega) (by rw [hqsize]; omega) hfits
      obtain ⟨s₄, hedit₄, hhalves₄⟩ := hhalves.edit_right hrow
      refine ⟨s₄, p', q₄, by rw [if_neg hlow, hedit₄], hhalves₄, by omega, by omega, ?_, ?_⟩
      · rwa [hm', hall, List.take_insertIdx_eq_take_of_le _ _ _ _ (Nat.not_le.mp hlow).le]
      · rwa [hm', hall, ← insertIdx_drop _ _ (Nat.not_le.mp hlow).le hi]
  -- the first row of the upper half is the separator
  have hlen : all.length = rows.length + 1 := List.length_insertIdx_of_le_length hi row
  have hm' : m < all.length := by
    rcases Shape.cutPoint_le hi with h | h <;> omega
  have hsep : (all.drop m)[0]? = some all[m] := by
    rw [List.getElem?_drop, Nat.add_zero, List.getElem?_eq_getElem hm']
  have hload := hnew₄.slots 0 _ hsep
  have hsize₄ : s₄.size = s.size := hhalves₄.keeps.size
  refine ⟨all[m], s₄, ?_, List.getElem?_eq_getElem hm', hR.fits_of_load hload,
    stored_of_leafPage hhalves₄.left (by omega) hpage₄, stored_of_leafPage hhalves₄.right (by omega) hnew₄,
    hhalves₄.keeps, by rw [hhalves₄.next, hindex]⟩
  have hview : Session.view t.cache right (t.rows.loadSlot t.rows.leaf 0) s₄ = (.ok all[m], s₄) := by
    rw [Session.view_memory hhalves₄.right, hload]
  rw [splitLeaf]
  refine (hrun _).trans ?_
  by_cases hlow : i ≤ mid
  · rw [if_pos hlow] at hinsert ⊢
    rw [run_bind_ok hinsert]
    exact run_bind_ok hview _
  · rw [if_neg hlow] at hinsert ⊢
    exact (run_bind_ok hinsert _).trans (run_bind_ok hview _)

/-- A row put into a leaf in memory, at its place. -/
lemma putInLeaf_ends (hR : t.rows.Lawful key) (husual : p.Usual) (hroomy : t.rows.Roomy p.size)
    (hp : s.InMemory t.cache id.index p) (hsize : p.size = s.size)
    (hpage : t.rows.LeafPage id rows p) (hasc : Rows.Ascending key rows)
    (hfits : t.rows.fits row = .ok ()) (hn : s.next? t.cache = some n) :
    Ends (t.putInLeaf id (Rows.place key row rows) row) s
      (fun r s' => Grows B s t.cache [id.index] (Shape.growLeaf t.rows key s.size id rows row n)
        (PutStored B t s' r) s')
      (fun e s' => Grows B s t.cache [id.index] (Shape.growLeaf t.rows key s.size id rows row n)
        (PutShort B t s' e) s') := by
  rw [Shape.growLeaf]
  -- The row replaces the one of its key, or goes into the leaf, or cuts it in two, or finds no
  -- page to do so.
  cases hat : Rows.place key row rows with
  | found i =>
      obtain ⟨r, hr, -⟩ := hasc.of_found hat
      obtain ⟨q, hreplace, hqsize, hq⟩ := t.exists_replaceRow hR husual hpage hr hfits
      obtain ⟨s', hedit, hq', hkeeps, hnext⟩ := Session.edit_memory (B := B) hp hreplace
      rw [putInLeaf]
      refine Ends.bind_ok hedit (Ends.of_ok rfl ⟨⟨by rw [hr], ?_⟩, hkeeps, hnext.trans hn⟩)
      exact stored_of_leafPage hq' (by rw [hqsize, hkeeps.size, hsize]) hq
  | gap i =>
      obtain ⟨hi, -⟩ := hasc.of_gap hat
      have hview : Session.view t.cache id (fun p => return (← Node.count p, p.size)) s
          = (.ok (rows.length, p.size), s) := by
        rw [Session.view_memory hp, hpage.head.count]
        rfl
      rw [putInLeaf]
      refine Ends.bind_ok hview ?_
      simp only [← hsize]
      split
      · rename_i hroom
        obtain ⟨q, hinsert, hqsize, hq⟩ := t.exists_insertRow hR husual hpage hi hroom hfits
        obtain ⟨s', hedit, hq', hkeeps, hnext⟩ := Session.edit_memory (B := B) hp hinsert
        refine Ends.bind_ok hedit (Ends.of_ok rfl ⟨⟨rfl, ?_⟩, hkeeps, hnext.trans hn⟩)
        exact stored_of_leafPage hq' (by rw [hqsize, hkeeps.size, hsize]) hq
      · rename_i hfull
        split
        · rename_i hlimit
          have hfail : t.allocate s = (.error (.error (.outOfSpace t.cache)), s) :=
            Session.allocate_full hn hlimit _ _
          refine Ends.of_error (run_bind_error hfail _) ⟨⟨rfl, ?_⟩, .refl s, hn⟩
          exact stored_of_leafPage hp hsize hpage
        · rename_i hlimit
          have hcap := hroomy.leaf
          obtain ⟨sep, s', hsplit, hsep, hsepfits, hleft, hright, hkeeps, hnext⟩ :=
            splitLeaf_ok (B := B) hR husual hp hsize hpage (by omega) hi hfits hn (by omega)
          refine Ends.of_ok hsplit ⟨⟨?_, hleft, hright, ?_⟩, hkeeps, hnext⟩
          · rw [hsep]
            rfl
          · rw [hsep]
            exact hsepfits

/-! ### Inner nodes -/

variable {links : List PageId} {sep : ρ} {link : PageId}

variable (link) in
/-- A full inner node is cut at the separator at which its shape is. -/
lemma splitInner_ok (hR : t.rows.Lawful key) (husual : p.Usual)
    (hp : s.InMemory t.cache id.index p) (hsize : p.size = s.size)
    (hpage : t.rows.InnerPage id keys links p) (hcap : 1 ≤ keys.length) (hi : i ≤ keys.length)
    (hfits : t.rows.fits sep = .ok ()) (hn : s.next? t.cache = some n)
    (hlimit : n < CacheFile.indexLimit) :
    ∃ promoted s' p' q', t.splitInner id keys.length i sep link s
        = (.ok (promoted, t.rows.nodeId n), s') ∧
      (keys.insertIdx i sep)[cutPoint keys.length i]? = some promoted ∧
      t.rows.fits promoted = .ok () ∧
      s'.InMemory t.cache id.index p' ∧ p'.size = s'.size ∧
      t.rows.InnerPage id ((keys.insertIdx i sep).take (cutPoint keys.length i))
        ((links.insertIdx (i + 1) link).take (cutPoint keys.length i + 1)) p' ∧
      s'.InMemory t.cache (t.rows.nodeId n).index q' ∧ q'.size = s'.size ∧
      t.rows.InnerPage (t.rows.nodeId n) ((keys.insertIdx i sep).drop (cutPoint keys.length i + 1))
        ((links.insertIdx (i + 1) link).drop (cutPoint keys.length i + 1)) q' ∧
      s.Keeps B t.cache [id.index] s' ∧ s'.next? t.cache = some (n + 1) := by
  set right := t.rows.nodeId n with hright
  set mid := keys.length / 2 with hmid
  have hindex : right.index = n := Shape.index_nodeId t.rows (by omega)
  have hroom := hpage.room
  have hlinks := hpage.length_links
  have hmid' : mid < keys.length := by omega
  have hpromoted := hpage.slots mid _ (List.getElem?_eq_getElem hmid')
  -- what stands behind the middle separator goes to a new page, what stands before it stays
  have hzeros : (Page.zeros s.size).size = p.size := by rw [Page.size_zeros, hsize]
  obtain ⟨q, hfill, hqsize, hq⟩ := t.exists_fillRightInner hR husual hzeros hpage hmid' right
  obtain ⟨p', hcut, hpsize', hp'⟩ := t.exists_cutInner hR husual hpage hmid'.le
  obtain ⟨s₃, hhalves, hrun⟩ := cut_run (B := B)
    (F := fun right left => t.fillRightInner right left mid keys.length) hp hn hlimit hfill hcut
  have hlen₁ : (keys.take mid).length = mid := List.length_take_of_le (by omega)
  have hlen₂ : (keys.drop (mid + 1)).length = keys.length - (mid + 1) := List.length_drop
  set seps := keys.insertIdx i sep with hseps
  set parts := links.insertIdx (i + 1) link with hparts
  set m := cutPoint keys.length i with hm
  have hview : Session.view t.cache id (t.rows.loadSlot t.rows.inner mid) s = (.ok keys[mid], s) := by
    rw [Session.view_memory hp, hpromoted]
  by_cases hlow : i ≤ mid
  · -- the separator comes into the lower half
    have hm' : m = mid + 1 := by rw [hm, cutPoint, ← hmid, if_pos hlow]
    obtain ⟨p₄, hinsert, hpsize₄, hpage₄⟩ := t.exists_insertSeparator hR (husual.of_size hpsize') hp'
      (show i ≤ (keys.take mid).length by omega) (by rw [hpsize']; omega) hfits link
    obtain ⟨s₄, hedit₄, hhalves₄⟩ := hhalves.edit_left hinsert
    have hsize₄ : s₄.size = s.size := hhalves₄.keeps.size
    refine ⟨keys[mid], s₄, p₄, q, ?_, ?_, hR.fits_of_load hpromoted, hhalves₄.left, by omega, ?_,
      hhalves₄.right, by omega, ?_, hhalves₄.keeps, by rw [hhalves₄.next, hindex]⟩
    · rw [splitInner, ← hmid, run_bind_ok hview]
      refine (hrun _).trans ?_
      rw [if_pos hlow, run_bind_ok hedit₄]
      rfl
    · rw [hm', hseps, List.getElem?_insertIdx, if_neg (by omega), if_neg (by omega)]
      exact List.getElem?_eq_getElem hmid'
    · rwa [hm', ← insertIdx_take _ _ hlow, ← insertIdx_take _ _ (by omega)]
    · rwa [hm', hseps, hparts, drop_insertIdx_of_le _ _ (by omega),
        drop_insertIdx_of_le _ _ (by omega)]
  · -- the separator comes into the upper half
    have hlow' : mid + 1 ≤ i := by omega
    have hm' : m = mid := by rw [hm, cutPoint, ← hmid, if_neg hlow]
    have hplace : i - mid - 1 = i - (mid + 1) := by omega
    obtain ⟨q₄, hinsert, hqsize₄, hnew₄⟩ := t.exists_insertSeparator hR (husual.of_size hqsize) hq
      (show i - mid - 1 ≤ (keys.drop (mid + 1)).length by omega) (by rw [hqsize]; omega) hfits link
    obtain ⟨s₄, hedit₄, hhalves₄⟩ := hhalves.edit_right hinsert
    have hsize₄ : s₄.size = s.size := hhalves₄.keeps.size
    refine ⟨keys[mid], s₄, p', q₄, ?_, ?_, hR.fits_of_load hpromoted, hhalves₄.left, by omega, ?_,
      hhalves₄.right, by omega, ?_, hhalves₄.keeps, by rw [hhalves₄.next, hindex]⟩
    · rw [splitInner, ← hmid, run_bind_ok hview]
      refine (hrun _).trans ?_
      rw [if_neg hlow]
      exact run_bind_ok hedit₄ _
    · rw [hm', hseps, List.getElem?_insertIdx, if_pos (by omega)]
      exact List.getElem?_eq_getElem hmid'
    · rwa [hm', hseps, hparts, List.take_insertIdx_eq_take_of_le _ _ _ _ (by omega),
        List.take_insertIdx_eq_take_of_le _ _ _ _ (by omega)]
    · have hlinksplace : i - (mid + 1) + 1 = i + 1 - (mid + 1) := by omega
      rwa [hplace, insertIdx_drop _ _ hlow' hi, hlinksplace,
        insertIdx_drop _ _ (by omega) (by omega), ← hm'] at hnew₄

/-- A link put behind the link to a child. -/
lemma insertIdx_links (cb ca : List (Shape ρ h)) (l r : Shape ρ h) :
    ((cb ++ [l] ++ ca).map Shape.id).insertIdx (cb.length + 1) r.id
      = (cb ++ [l, r] ++ ca).map Shape.id := by
  have hmiddle := insertIdx_middle ((cb ++ [l]).map Shape.id) (ca.map Shape.id) r.id
  rw [List.length_map, List.length_append, List.length_singleton, ← List.map_append] at hmiddle
  rw [hmiddle]
  simp

lemma mem_parts {α : Type} {d l r : α} {before after : List α} :
    d ∈ before ++ [l, r] ++ after ↔ d = l ∨ d = r ∨ d ∈ before ++ after := by
  simp only [List.mem_append, List.mem_cons, List.not_mem_nil, or_false]
  tauto

/-- The two parts of a child put into an inner node in memory, with the separator. -/
lemma putSeparator_ends (hR : t.rows.Lawful key) (husual : p.Usual)
    (hroomy : t.rows.Roomy p.size) {cb ca : List (Shape ρ h)} {c l r : Shape ρ h}
    (hp : s.InMemory t.cache id.index p) (hsize : p.size = s.size)
    (hpage : t.rows.InnerPage id keys ((cb ++ [l] ++ ca).map Shape.id) p)
    (hparts : ∀ d ∈ cb ++ [l, r] ++ ca, d.Stored B t.rows t.cache s)
    (hapart : ∀ d ∈ cb ++ [l, r] ++ ca, id.index ∉ d.indexes)
    (hfits : t.rows.fits sep = .ok ()) (hn : s.next? t.cache = some n) :
    Ends (t.putSeparator id cb.length sep r.id) s
      (fun split s' => Grows B s t.cache [id.index]
        (Shape.growInner t.rows s.size id keys (cb ++ c :: ca) cb.length l sep r n)
        (PutStored B t s' ⟨none, split⟩) s')
      (fun e s' => Grows B s t.cache [id.index]
        (Shape.growInner t.rows s.size id keys (cb ++ c :: ca) cb.length l sep r n)
        (PutShort B t s' e) s') := by
  have hlen := hpage.length_links
  simp only [List.length_map, List.length_append, List.length_singleton] at hlen
  have hi : cb.length ≤ keys.length := by omega
  -- only the page of the node changes, so its children stay
  have hkept : ∀ s', s.Keeps B t.cache [id.index] s' →
      ∀ d ∈ cb ++ [l, r] ++ ca, d.Stored B t.rows t.cache s' := by
    intro s' hkeeps d hd
    refine (hparts d hd).keeps hkeeps fun j hj hin => hapart d hd ?_
    rwa [← List.mem_singleton.mp hin]
  have hview : Session.view t.cache id (fun p => return (← Node.count p, p.size)) s
      = (.ok (keys.length, p.size), s) := by
    rw [Session.view_memory hp, hpage.head.count]
    rfl
  rw [Shape.growInner_middle, putSeparator]
  refine Ends.bind_ok hview ?_
  simp only [← hsize]
  split
  · rename_i hroom
    obtain ⟨q, hinsert, hqsize, hq⟩ := t.exists_insertSeparator hR husual hpage hi hroom hfits r.id
    obtain ⟨s', hedit, hq', hkeeps, hnext⟩ := Session.edit_memory (B := B) hp hinsert
    rw [insertIdx_links] at hq
    refine Ends.bind_ok hedit (Ends.of_ok rfl ⟨⟨rfl, ?_, hkept s' hkeeps⟩, hkeeps, hnext.trans hn⟩)
    exact ⟨q, hq'.shows, by rw [hqsize, hkeeps.size, hsize], hq⟩
  · rename_i hfull
    split
    · rename_i hlimit
      have hfail : t.splitInner id keys.length cb.length sep r.id s
          = (.error (.error (.outOfSpace t.cache)), s) := by
        have hcap := hroomy.inner
        have hmid : keys.length / 2 < keys.length := by omega
        have hload := hpage.slots _ _ (List.getElem?_eq_getElem hmid)
        have hpromoted : Session.view t.cache id
            (t.rows.loadSlot t.rows.inner (keys.length / 2)) s = (.ok keys[keys.length / 2], s) := by
          rw [Session.view_memory hp, hload]
        rw [splitInner, run_bind_ok hpromoted]
        exact run_bind_error (Session.allocate_full hn hlimit _ _) _
      refine Ends.of_error (run_map_error hfail _) ⟨⟨rfl, ⟨p, hp.shows, hsize, hpage⟩, ?_⟩, .refl s, hn⟩
      exact fun d hd => hparts d (by simp only [List.mem_append, List.mem_cons] at hd ⊢; tauto)
    · rename_i hlimit
      have hcap := hroomy.inner
      obtain ⟨promoted, s', p', q', hsplit, hpromoted, hpfits, hp', hpsize, hleft, hq', hqsize, hright,
        hkeeps, hnext⟩ := splitInner_ok (B := B) r.id hR husual hp hsize hpage (by omega) hi
          hfits hn (by omega)
      rw [insertIdx_links, ← List.map_take] at hleft
      rw [insertIdx_links, ← List.map_drop] at hright
      refine Ends.of_ok (run_map_ok hsplit _) ⟨⟨?_, ⟨⟨p', hp'.shows, hpsize, hleft⟩, ?_⟩,
        ⟨⟨q', hq'.shows, hqsize, hright⟩, ?_⟩, ?_⟩, hkeeps, hnext⟩
      · rw [hpromoted]
        rfl
      · exact fun d hd => hkept s' hkeeps d (List.mem_of_mem_take hd)
      · exact fun d hd => hkept s' hkeeps d (List.mem_of_mem_drop hd)
      · rw [hpromoted]
        exact hpfits

/-- What becomes of an inner node in memory when the result below it has come back. -/
lemma putAbove_ends (hR : t.rows.Lawful key) (husual : p.Usual) (hroomy : t.rows.Roomy p.size)
    {cb ca : List (Shape ρ h)} {c : Shape ρ h} {grown : Grown ρ h} {r : PutResult ρ}
    (hp : s.InMemory t.cache id.index p) (hsize : p.size = s.size)
    (hpage : t.rows.InnerPage id keys ((cb ++ c :: ca).map Shape.id) p)
    (hothers : ∀ d ∈ cb ++ ca, d.Stored B t.rows t.cache s ∧ id.index ∉ d.indexes)
    (hfirst : grown.first.id = c.id) (hapart : id.index ∉ grown.indexes)
    (hr : PutStored B t s r grown) (hn : s.next? t.cache = some n) :
    Ends (match r.split with
        | none => return ⟨r.old, none⟩
        | some (sep, right) => return ⟨r.old, ← t.putSeparator id cb.length sep right⟩ :
          SessionM δ (PutResult ρ)) s
      (fun r' s' => Grows B s t.cache [id.index]
        (Shape.growAbove t.rows s.size id keys (cb ++ c :: ca) cb.length (grown, n))
        (PutStored B t s' r') s')
      (fun e s' => Grows B s t.cache [id.index]
        (Shape.growAbove t.rows s.size id keys (cb ++ c :: ca) cb.length (grown, n))
        (PutShort B t s' e) s') := by
  -- A child that took the row up needs nothing more; one that was cut brings a separator, and its
  -- left half still has its page.
  cases grown with
  | short _ => exact hr.elim
  | whole old c' =>
      obtain ⟨rfl, hc'⟩ := hr
      rw [Shape.growAbove, set_middle]
      exact Ends.of_ok rfl ⟨⟨rfl, Shape.stored_above hp hsize hpage hfirst (fun d hd => (hothers d hd).1)
        hc'⟩, .refl s, hn⟩
  | cut l sep right =>
      obtain ⟨rfl, hl, hright, hsep⟩ := hr
      have hlinks : (cb ++ c :: ca).map Shape.id = (cb ++ [l] ++ ca).map Shape.id := by
        simp [show l.id = c.id from hfirst]
      rw [hlinks] at hpage
      simp only [Grown.indexes, List.mem_append, not_or] at hapart
      have hparts : ∀ d ∈ cb ++ [l, right] ++ ca, d.Stored B t.rows t.cache s ∧ id.index ∉ d.indexes := by
        intro d hd
        rcases mem_parts.mp hd with rfl | rfl | hd
        · exact ⟨hl, hapart.1⟩
        · exact ⟨hright, hapart.2⟩
        · exact hothers d hd
      rw [Shape.growAbove]
      exact Ends.bind (putSeparator_ends (c := c) hR husual hroomy hp hsize hpage
        (fun d hd => (hparts d hd).1) (fun d hd => (hparts d hd).2) hsep hn)
        fun split s' h => Ends.of_ok rfl h

/-! ### Parts of a tree -/

variable {lo : WithBot κ} {hi : WithTop κ}

/-- A row put below a stored shape. -/
lemma putFrom_ends (hR : t.rows.Lawful key) (husual : 512 ≤ s.size ∧ s.size ≤ 65536)
    (hroomy : t.rows.Roomy s.size) (S : Shape ρ h) (hS : S.Stored B t.rows t.cache s)
    (hordered : S.Ordered key lo hi) (hdistinct : S.indexes.Nodup)
    (hfits : t.rows.fits row = .ok ()) (hlo : lo ≤ key row) (hhi : key row < hi)
    (hn : s.next? t.cache = some n) {depth : ℕ} (hdepth : h < depth) :
    Ends (t.putFrom row depth S.id) s
      (fun r s' => Grows B s t.cache S.indexes (S.put t.rows key s.size row n)
        (PutStored B t s' r) s')
      (fun e s' => B.Fails e ∧ s.Quiet B t.cache s' ∨
        Grows B s t.cache S.indexes (S.put t.rows key s.size row n) (PutShort B t s' e) s') := by
  obtain ⟨depth, rfl⟩ := Nat.exists_eq_succ_of_ne_zero (Nat.ne_zero_of_lt hdepth)
  induction h generalizing s lo hi depth with
  | zero =>
      obtain ⟨id, rows, rfl⟩ := S.exists_leaf
      obtain ⟨p, hp, hsize, hpage⟩ := hS
      refine Ends.bind (Session.look_ends hp (t.arrive_leaf hR hpage hordered.1 row)).or_inl ?_
      rintro _ s₁ ⟨rfl, hquiet, hp₁⟩
      have hsize₁ : s₁.size = s.size := hquiet.keeps.size
      have hput := putInLeaf_ends (B := B) hR (by rwa [Page.Usual, hsize]) (by rwa [hsize]) hp₁
        (by rw [hsize, hsize₁]) hpage hordered.1 hfits (hquiet.next.trans hn)
      rw [hsize₁] at hput
      rw [Shape.put_leaf]
      exact hput.mono (fun _ _ h => h.after hquiet.keeps (by simp) (by simp))
        fun _ _ h => .inr (h.after hquiet.keeps (by simp) (by simp))
  | succ h ih =>
      obtain ⟨id, keys, children, rfl⟩ := S.exists_inner
      obtain ⟨⟨p, hp, hsize, hpage⟩, hchildren⟩ := hS
      have hseparators := hordered.separators.1
      obtain ⟨kb, ka, cb, c, ca, rfl, rfl, hroute⟩ := Fenced.exists_route hordered hlo hhi
      obtain ⟨lo', hi', hc, hlo', hhi', -⟩ := hroute.child
      refine Ends.bind (Session.look_ends hp (arrive_child hR hpage hseparators hroute.place)).or_inl ?_
      rintro _ s₁ ⟨rfl, hquiet, hp₁⟩
      have hsize₁ : s₁.size = s.size := hquiet.keeps.size
      obtain ⟨depth, rfl⟩ := Nat.exists_eq_succ_of_ne_zero (show depth ≠ 0 by omega)
      have hbeside := Shape.beside_of_nodup hdistinct
      have hstored : ∀ d ∈ cb ++ c :: ca, d.Stored B t.rows t.cache s₁ := fun d hd =>
        (hchildren d hd).quiet hquiet
      have hrec := ih (s := s₁) (by rwa [hsize₁]) (by rwa [hsize₁]) c (hstored c (by simp)) hc
        hbeside.distinct hlo' hhi' (hquiet.next.trans hn) depth (by omega)
      rw [hsize₁] at hrec
      have hfirst := Shape.put_first_id t.rows key s.size c row n
      -- new pages are not that of the node
      have hcount := (Shape.count_put_le t.rows key s.size c row n).2 id.index
      have hidn : id.index < n := hp₁.lt (hquiet.next.trans hn)
      rw [List.count_eq_zero.mpr hbeside.above, Shape.fresh, if_neg (by omega)] at hcount
      have hapart := List.count_eq_zero.mp (Nat.le_zero.mp hcount)
      have hkept : ∀ s₂, s₁.Keeps B t.cache c.indexes s₂ → p.size = s₂.size ∧
          s.Keeps B t.cache (Shape.inner id (kb ++ ka) (cb ++ c :: ca)).indexes s₂ := by
        refine fun s₂ hkeeps => ⟨by rw [hkeeps.size, hsize₁, hsize], hquiet.then (hkeeps.mono ?_)⟩
        exact fun j hj => by simp [hj]
      rw [Shape.put_route t.rows hroute]
      generalize Shape.put t.rows key s.size row c n = grown at hrec hfirst hapart
      obtain ⟨grown, n₂⟩ := grown
      refine Ends.bind (hrec.mono_error ?_) ?_
      · rintro e s₂ (⟨hfails, hquiet'⟩ | ⟨hshort, hkeeps, hnext⟩)
        · exact .inl ⟨hfails, hquiet.trans hquiet'⟩
        · obtain ⟨hp₂, hothers⟩ := hbeside.kept hp₁ hstored hkeeps
          obtain ⟨hsize₂, hkeeps₂⟩ := hkept s₂ hkeeps
          cases grown with
          | whole _ _ => exact hshort.elim
          | cut _ _ _ => exact hshort.elim
          | short c' =>
              obtain ⟨rfl, hc'⟩ := hshort
              rw [Shape.growAbove, set_middle]
              exact .inr ⟨⟨rfl, Shape.stored_above hp₂ hsize₂ hpage hfirst hothers hc'⟩, hkeeps₂, hnext⟩
      · rintro r s₂ ⟨hr, hkeeps, hnext⟩
        obtain ⟨hp₂, hothers⟩ := hbeside.kept hp₁ hstored hkeeps
        obtain ⟨hsize₂, hkeeps₂⟩ := hkept s₂ hkeeps
        have habove := putAbove_ends hR (by rwa [Page.Usual, hsize]) (by rwa [hsize]) hp₂ hsize₂ hpage
          (fun d hd => ⟨hothers d hd, hbeside.above_others d hd⟩) hfirst hapart hr hnext
        rw [← hsize₂, hsize] at habove
        exact habove.mono (fun _ _ h => h.after hkeeps₂ (List.Subset.refl _) (by simp))
          fun _ _ h => .inr (h.after hkeeps₂ (List.Subset.refl _) (by simp))

/-! ### Whole trees -/

variable {T : TreeShape ρ}

omit [Device δ] in
lemma exists_raiseRoot {top : PageId} {level : ℕ} (h : MetaPage.Leads top level p)
    (hlevel : level + 1 < MetaPage.levelLimit) (id : PageId) :
    ∃ q, raiseRoot id p = (.ok (), q) ∧ q.size = p.size ∧ MetaPage.Leads id (level + 1) q := by
  obtain ⟨q, henter, hsize, hq⟩ := MetaPage.exists_enter h.size_le id hlevel
  refine ⟨q, ?_, hsize, hq⟩
  rw [raiseRoot, run_bind_ok (PageM.look_ok h.level)]
  simp only [if_neg (Nat.not_le.mpr hlevel)]
  exact henter

/-- A new root comes above the two parts of the old one. -/
lemma newRoot_ok (hR : t.rows.Lawful key) (husual : 512 ≤ s.size ∧ s.size ≤ 65536)
    (hroomy : t.rows.Roomy s.size) {l r : Shape ρ h} (hp : s.InMemory t.cache 0 p)
    (hleads : MetaPage.Leads l.id h p) (hl : l.Stored B t.rows t.cache s)
    (hr : r.Stored B t.rows t.cache s) (hzero : 0 ∉ l.indexes ∧ 0 ∉ r.indexes)
    (hfits : t.rows.fits sep = .ok ()) (hn : s.next? t.cache = some n)
    (hlimit : n < CacheFile.indexLimit) (hheight : h < n) (old : Option ρ) :
    ∃ s' p', (do
          let new ← t.allocate
          Session.edit t.cache new (t.fillRoot new l.id sep r.id)
          Session.edit t.cache .metaPage (raiseRoot new)
          return old : SessionM δ (Option ρ)) s = (.ok old, s') ∧
      (Shape.inner (t.rows.nodeId n) [sep] [l, r]).Stored B t.rows t.cache s' ∧
      s'.InMemory t.cache 0 p' ∧ MetaPage.Leads (t.rows.nodeId n) (h + 1) p' ∧
      s.Keeps B t.cache [0] s' ∧ s'.next? t.cache = some (n + 1) := by
  have hindex : (t.rows.nodeId n).index = n := Shape.index_nodeId t.rows (by omega)
  have hpos := hp.lt hn
  obtain ⟨s₁, hallocate, hnew, hkeeps₁, hnext₁⟩ :=
    Session.allocate_ok (B := B) hn hlimit t.rows.partition t.rows.space
  have hzeros : (Page.zeros s.size).size = s.size := Page.size_zeros _
  obtain ⟨q, hfill, hqsize, hq⟩ := t.exists_fillRoot hR (p := Page.zeros s.size)
    (by rwa [Page.Usual, hzeros]) (by rw [hzeros]; exact hroomy.inner) hfits (t.rows.nodeId n)
    l.id r.id
  rw [← hindex] at hnew
  obtain ⟨s₂, hedit₂, hq₂, hkeeps₂, hnext₂⟩ := Session.edit_memory (B := B) hnew hfill
  have hkeeps : s.Keeps B t.cache [0] s₂ := by
    have hkept : s.Keeps B t.cache [0] s₁ := hkeeps₁.mono (by simp)
    exact hkept.fresh hn hkeeps₂ (by simp [hindex])
  -- the meta page, which is not the new one
  have hp₂ : s₂.InMemory t.cache 0 p := by
    refine hkeeps₂.memory ?_ (hkeeps₁.memory List.not_mem_nil hp)
    rw [hindex, List.mem_singleton]
    omega
  have hlevel : h + 1 < MetaPage.levelLimit := by
    rw [CacheFile.indexLimit] at hlimit
    rw [MetaPage.levelLimit]
    omega
  obtain ⟨p', hraise, -, hleads'⟩ := exists_raiseRoot hleads hlevel (t.rows.nodeId n)
  obtain ⟨s₃, hedit₃, hp₃, hkeeps₃, hnext₃⟩ :=
    Session.edit_meta_memory (B := B) hp₂ hraise
  have hkeeps' : s.Keeps B t.cache [0] s₃ := hkeeps.trans hkeeps₃
  refine ⟨s₃, p', ?_, ⟨⟨q, ?_, ?_, hq⟩, ?_⟩, hp₃, hleads', hkeeps', by rw [hnext₃, hnext₂, hnext₁]⟩
  · rw [allocate, run_bind_ok hallocate]
    exact (run_bind_ok hedit₂ _).trans (run_bind_ok hedit₃ _)
  · refine (hkeeps₃.memory ?_ hq₂).shows
    rw [hindex]
    rw [List.mem_singleton]
    omega
  · rw [hqsize, hzeros, hkeeps'.size]
  · -- nothing changed in the pages of the two parts
    intro d hd
    obtain rfl | rfl : d = l ∨ d = r := by simpa using hd
    · exact hl.keeps hkeeps' fun i hi hin => hzero.1 (by rwa [← List.mem_singleton.mp hin])
    · exact hr.keeps hkeeps' fun i hi hin => hzero.2 (by rwa [← List.mem_singleton.mp hin])

variable (key) in
/-- The nodes of a tree with a new row are in pages of their own. -/
lemma Holds.put_distinct (hT : t.Holds B s T) (row : ρ) (hn : s.next? t.cache = some n) :
    (T.put t.rows key s.size row n).tree.indexes.Nodup ∧
      0 ∉ (T.put t.rows key s.size row n).tree.indexes := by
  have hcount := (TreeShape.count_put_le t.rows key s.size T row n).2
  have hpos : 0 < n := by
    obtain ⟨p, hp, -⟩ := hT.root
    exact hp.lt hn
  refine ⟨List.nodup_iff_count_le_one.mpr fun i => (hcount i).trans ?_, ?_⟩
  · have hold := List.nodup_iff_count_le_one.mp hT.distinct i
    unfold Shape.fresh
    split
    · -- a new index is none of the old ones
      have hnew : i ∉ T.indexes := fun hi => by
        have := hT.lt_next hn hi
        omega
      rw [List.count_eq_zero.mpr hnew]
    · omega
  · have hzero := hcount 0
    rw [List.count_eq_zero.mpr hT.meta_notMem, Shape.fresh, if_neg (by omega)] at hzero
    exact List.count_eq_zero.mp (Nat.le_zero.mp hzero)

/-- A row put into a held tree: either the tree is that of the shape with the row, or the
row does not fit, the device failed, or the tree lacked a page. -/
theorem Holds.put_ends (hR : t.rows.Lawful key) (hroomy : t.rows.Roomy s.size)
    (hT : t.Holds B s T) (hordered : T.Ordered key) (row : ρ) (hn : s.next? t.cache = some n) :
    Ends (t.put row) s
      (fun old s' => t.rows.fits row = .ok () ∧ (T.put t.rows key s.size row n).old = some old ∧
        t.Becomes B s T s' (T.put t.rows key s.size row n).tree (T.put t.rows key s.size row n).next)
      (fun e s' => (∃ error, t.rows.fits row = .error error ∧ e = .error error ∧ s' = s) ∨
        B.Fails e ∧ s.Quiet B t.cache s' ∨
        t.rows.fits row = .ok () ∧ (T.put t.rows key s.size row n).old = none ∧
        e = .error (.outOfSpace t.cache) ∧
        t.Becomes B s T s' (T.put t.rows key s.size row n).tree
          (T.put t.rows key s.size row n).next) := by
  rw [put]
  cases hfits : t.rows.fits row with
  | error e => exact Ends.of_error rfl (.inl ⟨e, rfl, rfl, rfl⟩)
  | ok u =>
      obtain ⟨⟩ := u
      obtain ⟨p, hp, hleads⟩ := hT.root
      refine Ends.bind ((Session.view_meta_ends hp hleads.root).mono_error fun _ _ h => .inr (.inl h)) ?_
      rintro _ s₁ ⟨rfl, hquiet, hp₁⟩
      refine Ends.bind_ok (reach_run (hquiet.next.trans hn)) ?_
      have hheight := hT.height_lt hordered hn
      have hsize₁ : s₁.size = s.size := hquiet.keeps.size
      have hrec := putFrom_ends (B := B) hR (by rw [hsize₁]; exact hT.size) (by rwa [hsize₁]) T.top
        (hT.stored.quiet hquiet) hordered hT.distinct hfits bot_le (WithTop.coe_lt_top _)
        (hquiet.next.trans hn) (show T.height < n + 1 by omega)
      rw [hsize₁] at hrec
      have hfirst := Shape.put_first_id t.rows key s.size T.top row n
      have hle := (Shape.count_put_le t.rows key s.size T.top row n).1
      obtain ⟨hdistinct, hmeta⟩ := hT.put_distinct key row hn
      -- what is left to show once the meta page is that of the new tree
      have hbecomes : ∀ (s' : Session δ) (T' : TreeShape ρ) (n' : ℕ) (p' : Page),
          s₁.Keeps B t.cache (0 :: T.indexes) s' → s'.Shows B t.cache 0 p' →
          MetaPage.Leads T'.top.id T'.height p' → T'.top.Stored B t.rows t.cache s' →
          T'.indexes.Nodup → 0 ∉ T'.indexes → s'.next? t.cache = some n' →
          t.Becomes B s T s' T' n' := by
        intro s' T' n' p' hkeeps hp' hleads' hstored hnodup hzero hnext
        refine ⟨⟨?_, ⟨p', hp', hleads'⟩, hstored, hnodup, hzero⟩, hquiet.then hkeeps, hnext⟩
        rw [hkeeps.size, hsize₁]
        exact hT.size
      rw [TreeShape.put] at hdistinct hmeta ⊢
      generalize T.top.put t.rows key s.size row n = grown at hrec hfirst hle hdistinct hmeta ⊢
      obtain ⟨grown, n₂⟩ := grown
      have hsub : ∀ j ∈ T.top.indexes, j ∈ 0 :: T.indexes := fun j hj => List.mem_cons_of_mem 0 hj
      refine Ends.bind (hrec.mono_error ?_) ?_
      · rintro e s₂ (⟨hfails, hquiet'⟩ | ⟨hshort, hkeeps, hnext⟩)
        · exact .inr (.inl ⟨hfails, hquiet.trans hquiet'⟩)
        · cases grown with
          | whole _ _ => exact hshort.elim
          | cut _ _ _ => exact hshort.elim
          | short top =>
              obtain ⟨rfl, hstored⟩ := hshort
              refine .inr (.inr ⟨rfl, rfl, rfl, hbecomes s₂ _ _ p (hkeeps.mono hsub)
                (hkeeps.memory hT.meta_notMem hp₁).shows ?_ hstored hdistinct hmeta hnext⟩)
              rwa [show top.id = T.top.id from hfirst]
      · rintro r s₂ ⟨hr, hkeeps, hnext⟩
        have hp₂ := hkeeps.memory hT.meta_notMem hp₁
        cases grown with
        | short _ => exact hr.elim
        | whole old top =>
            obtain ⟨rfl, hstored⟩ := hr
            refine Ends.of_ok rfl ⟨rfl, rfl, hbecomes s₂ _ _ p (hkeeps.mono hsub) hp₂.shows ?_ hstored
              hdistinct hmeta hnext⟩
            rwa [show top.id = T.top.id from hfirst]
        | cut l sep right =>
            obtain ⟨rfl, hl, hright, hsep⟩ := hr
            dsimp only at hdistinct hmeta hle ⊢
            split
            · rename_i hlimit
              rw [if_pos hlimit] at hdistinct hmeta
              have hfail : t.allocate s₂ = (.error (.error (.outOfSpace t.cache)), s₂) :=
                Session.allocate_full hnext hlimit _ _
              refine Ends.of_error (run_bind_error hfail _) (.inr (.inr ⟨rfl, rfl, rfl, hbecomes s₂ _ _ p
                (hkeeps.mono hsub) hp₂.shows ?_ hl hdistinct hmeta hnext⟩))
              rwa [show l.id = T.top.id from hfirst]
            · rename_i hlimit
              rw [if_neg hlimit] at hdistinct hmeta
              have hsize₂ : s₂.size = s.size := hkeeps.size.trans hsize₁
              have hzero : 0 ∉ l.indexes ∧ 0 ∉ right.indexes := by
                simp only [TreeShape.indexes, Shape.indexes_inner, List.flatMap_cons,
                  List.mem_cons, List.mem_append, not_or] at hmeta
                exact ⟨hmeta.2.1, hmeta.2.2.1⟩
              obtain ⟨s₃, p', hrun, hstored, hp₃, hleads₃, hkeeps₃, hnext₃⟩ :=
                newRoot_ok (B := B) hR (by rw [hsize₂]; exact hT.size) (by rwa [hsize₂]) hp₂
                  (by rwa [show l.id = T.top.id from hfirst]) hl hright hzero hsep hnext (by omega)
                  (show T.height < n₂ by omega) none
              rw [show l.id = T.top.id from hfirst] at hrun
              exact Ends.of_ok hrun ⟨rfl, rfl, hbecomes s₃ _ _ p'
                ((hkeeps.mono hsub).trans (hkeeps₃.mono (by simp))) hp₃.shows hleads₃ hstored
                hdistinct hmeta hnext₃⟩

end Tree

end PageCatalog
