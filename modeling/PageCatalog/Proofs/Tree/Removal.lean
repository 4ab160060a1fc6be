import Mathlib.Tactic
import PageCatalog.Tree.Remove
import PageCatalog.Proofs.Tree.Shrink
import PageCatalog.Proofs.Tree.Stored

/-!
Taking a row out of a held tree.

What the steps of a removal do to the pages is what the shape of the tree becomes when
the row is taken out of it. Only the device can make a removal fail. On the way down to
the row nothing has changed yet; but a root that gives way does so before it is known
whether its child can be had, and if that cannot be loaded the row is gone already.

* `Tree.RemoveStored`: the pages after a removal, against what is left of a shape.
* `Tree.Removes`: that, the pages it may have changed, and the nodes it freed.
* `Tree.removeFrom_ends`: parts of a tree.
* `Tree.Holds.collapse_ends`: a root with a single child gives way.
* `Tree.Holds.remove_ends`: whole trees.
-/

namespace PageCatalog

namespace Tree

variable {ρ κ δ : Type} [LinearOrder κ] [Device δ] {B : Backing δ} {t : Tree ρ} {key : ρ → κ}
  {s : Session δ} {h : ℕ} {lo : WithBot κ} {hi : WithTop κ} {id : PageId} {p : Page} {T : TreeShape ρ}

/-- A page of a node that nothing is left of: a leaf without rows, or an inner node without
separators. -/
def VacantPage (R : RowFormat ρ) (id : PageId) (p : Page) : (h : ℕ) → Prop
  | 0 => R.LeafPage id [] p
  | _ + 1 => ∃ links, R.InnerPage id [] links p

variable (B t) in
/-- The result of a removal and the pages after it are those of what is left of a shape. The
topmost node is in memory. -/
def RemoveStored (s : Session δ) (r : RemoveResult ρ) (id : PageId) : Shrunk ρ h → Prop
  | ⟨old, some T⟩ => r = ⟨old, false⟩ ∧ T.id = id ∧ T.Stored B t.rows t.cache s ∧
      ∃ p, s.InMemory t.cache id.index p
  | ⟨old, none⟩ => r = ⟨old, true⟩ ∧
      ∃ p, s.InMemory t.cache id.index p ∧ p.size = s.size ∧ VacantPage t.rows id p h

variable (B t) in
/-- A removal below a shape: its result, the pages that it may have changed, and the nodes
that it freed. -/
structure Removes (s : Session δ) (S : Shape ρ h) (left : Shrunk ρ h) (r : RemoveResult ρ)
    (s' : Session δ) : Prop where
  stored : RemoveStored B t s' r S.id left
  keeps : s.Keeps B t.cache S.indexes s'
  released : s'.Released t.cache S.indexes (left.indexes S.id)
  next : s'.next? t.cache = s.next? t.cache

/-- What a removal did, it did after anything that changed nothing. -/
lemma Removes.of_quiet {s₁ s' : Session δ} {S : Shape ρ h} {left : Shrunk ρ h} {r : RemoveResult ρ}
    (hr : Removes B t s₁ S left r s') (hquiet : s.Quiet B t.cache s₁) :
    Removes B t s S left r s' :=
  ⟨hr.stored, hquiet.then hr.keeps, hr.released, hr.next.trans hquiet.next⟩

/-! ### Parts of a tree -/

/-- A row taken out of a leaf in memory. -/
lemma eraseRow_ends (hR : t.rows.Lawful key) {rows : List ρ} {old : ρ} {i : ℕ} (husual : p.Usual)
    (hp : s.InMemory t.cache id.index p) (hsize : p.size = s.size)
    (hpage : t.rows.LeafPage id rows p) (hold : rows[i]? = some old) :
    Ends (Session.edit t.cache id (t.eraseRow i)) s
      (Removes B t s (.leaf id rows)
        ⟨rows[i]?, if rows.length = 1 then none else some (.leaf id (rows.eraseIdx i))⟩)
      (fun _ _ => False) := by
  obtain ⟨q, herase, hqsize, hq⟩ := t.exists_eraseRow hR husual hpage hold
  obtain ⟨s', hedit, hq', hkeeps, hnext⟩ := Session.edit_memory (B := B) hp herase
  have hsize' : q.size = s'.size := by rw [hqsize, hkeeps.size, hsize]
  refine Ends.of_ok hedit ⟨?_, hkeeps, fun j hj hout => ?_, hnext⟩
  · have hi : i < rows.length := (List.getElem?_eq_some_iff.mp hold).1
    rw [hold]
    split
    · rename_i hone
      refine ⟨by simp [hone], q, hq', hsize', ?_⟩
      have hlen := List.length_eraseIdx_of_lt hi
      rwa [List.eq_nil_of_length_eq_zero (show (rows.eraseIdx i).length = 0 by omega)] at hq
    · rename_i hmore
      exact ⟨by simp [hmore], rfl, ⟨q, hq'.shows, hsize', hq⟩, q, hq'⟩
  · -- the page of the leaf stays, with rows or without
    split at hout <;> exact absurd hj hout

/-- An inner node in memory loses a child that nothing is left of. -/
lemma unlink_ends (hR : t.rows.Lawful key) (husual : p.Usual) {keys : List ρ}
    {cb ca : List (Shape ρ h)} {c : Shape ρ h} {q : Page} (hp : s.InMemory t.cache id.index p)
    (hsize : p.size = s.size) (hpage : t.rows.InnerPage id keys ((cb ++ c :: ca).map Shape.id) p)
    (hq : s.InMemory t.cache c.id.index q) (hmeta : c.id.index ≠ 0)
    (hbeside : Shape.Beside id cb c ca) (hothers : ∀ d ∈ cb ++ ca, d.Stored B t.rows t.cache s)
    (old : Option ρ) :
    Ends (do
        let empty ← Session.edit t.cache id (t.eraseLink cb.length)
        Session.free t.cache c.id
        return ⟨old, empty⟩ : SessionM δ (RemoveResult ρ)) s
      (fun r s' =>
        RemoveStored B t s' r id (Shape.shrinkAbove id keys (cb ++ c :: ca) cb.length ⟨old, none⟩) ∧
        s.Keeps B t.cache [id.index, c.id.index] s' ∧ s'.Freed t.cache c.id.index ∧
        s'.next? t.cache = s.next? t.cache)
      (fun _ _ => False) := by
  have hne : id.index ≠ c.id.index := fun heq =>
    hbeside.above (heq ▸ c.index_mem_indexes)
  rw [Shape.shrinkAbove_none]
  -- A node without separators stays as it is in its page, to be freed by the one above it.
  -- Otherwise the child goes with a separator, and the others are not touched.
  by_cases hkeys : keys = []
  · subst hkeys
    obtain ⟨s₁, hedit, hp₁, hkeeps₁, hnext₁⟩ :=
      Session.edit_memory (B := B) hp (t.eraseLink_keyless hpage cb.length)
    have hq₁ := hkeeps₁.memory (by simpa using hne.symm) hq
    obtain ⟨s₂, hfree, hkeeps₂, hfreed, hnext₂⟩ := Session.free_memory (B := B) hq₁ hmeta
    refine Ends.bind_ok hedit (Ends.bind_ok hfree (Ends.of_ok rfl
      ⟨⟨rfl, p, ?_, ?_, _, hpage⟩, ?_, hfreed, ?_⟩))
    · exact hkeeps₂.memory (by simpa using hne) hp₁
    · rw [hkeeps₂.size, hkeeps₁.size, hsize]
    · exact (hkeeps₁.mono (by simp)).trans (hkeeps₂.mono (by simp))
    · rw [hnext₂, hnext₁]
  · obtain ⟨u, herase, husize, hu⟩ := t.exists_eraseLink hR husual hpage hkeys
      (show cb.length < _ by simp)
    obtain ⟨s₁, hedit, hp₁, hkeeps₁, hnext₁⟩ := Session.edit_memory (B := B) hp herase
    have hq₁ := hkeeps₁.memory (by simpa using hne.symm) hq
    obtain ⟨s₂, hfree, hkeeps₂, hfreed, hnext₂⟩ := Session.free_memory (B := B) hq₁ hmeta
    have hkeeps : s.Keeps B t.cache [id.index, c.id.index] s₂ :=
      (hkeeps₁.mono (by simp)).trans (hkeeps₂.mono (by simp))
    have hlinks : ((cb ++ c :: ca).map Shape.id).eraseIdx cb.length = (cb ++ ca).map Shape.id := by
      rw [← eraseIdx_middle cb ca c, List.eraseIdx_map]
    rw [hlinks] at hu
    rw [if_neg (by simpa using hkeys)]
    have hp₂ := hkeeps₂.memory (by simpa using hne) hp₁
    refine Ends.bind_ok hedit (Ends.bind_ok hfree (Ends.of_ok rfl
      ⟨⟨rfl, rfl, ⟨⟨u, hp₂.shows, ?_, hu⟩, ?_⟩, u, hp₂⟩, hkeeps, hfreed, by rw [hnext₂, hnext₁]⟩))
    · rw [husize, hkeeps.size, hsize]
    · intro d hd
      refine (hothers d hd).keeps hkeeps fun j hj hin => ?_
      rcases List.mem_cons.mp hin with rfl | hin
      · exact hbeside.above_others d hd hj
      · rw [List.mem_singleton.mp hin] at hj
        exact hbeside.others d hd _ hj c.index_mem_indexes

/-- What is left of an inner node in memory, once the row is gone from below one of its
children. -/
lemma removeAbove_ends (hR : t.rows.Lawful key) (husual : p.Usual) {keys : List ρ}
    {cb ca : List (Shape ρ h)} {c : Shape ρ h} {s₁ : Session δ}
    (hp : s.InMemory t.cache id.index p) (hsize : p.size = s.size)
    (hpage : t.rows.InnerPage id keys ((cb ++ c :: ca).map Shape.id) p)
    (hlength : (cb ++ c :: ca).length = keys.length + 1)
    (hdistinct : (Shape.inner id keys (cb ++ c :: ca)).indexes.Nodup) (hmeta : c.id.index ≠ 0)
    (hstored : ∀ d ∈ cb ++ c :: ca, d.Stored B t.rows t.cache s) {left : Shrunk ρ h}
    {below : RemoveResult ρ} (hbelow : Removes B t s c left below s₁) :
    Ends (if below.empty then do
          let empty ← Session.edit t.cache id (t.eraseLink cb.length)
          Session.free t.cache c.id
          return ⟨below.old, empty⟩
        else return ⟨below.old, false⟩ : SessionM δ (RemoveResult ρ)) s₁
      (Removes B t s (.inner id keys (cb ++ c :: ca))
        (Shape.shrinkAbove id keys (cb ++ c :: ca) cb.length left))
      (fun _ _ => False) := by
  have hbeside := Shape.beside_of_nodup hdistinct
  have hsub : ∀ j ∈ c.indexes, j ∈ (Shape.inner id keys (cb ++ c :: ca)).indexes :=
    fun j hj => by simp [hj]
  obtain ⟨hr, hkeeps, hreleased, hnext⟩ := hbelow
  obtain ⟨hp₁, hothers⟩ := hbeside.kept hp hstored hkeeps
  have hsize₁ : p.size = s₁.size := by rw [hkeeps.size, hsize]
  obtain ⟨old, _ | c'⟩ := left
  · obtain ⟨rfl, q, hq, -⟩ := hr
    refine (unlink_ends (B := B) hR husual hp₁ hsize₁ hpage hq hmeta hbeside hothers old).mono_ok ?_
    rintro r s₂ ⟨hr, hkeeps₂, hfreed, hnext₂⟩
    refine ⟨hr, (hkeeps.mono hsub).trans (hkeeps₂.mono fun j hj => ?_), fun j hj hout => ?_,
      hnext₂.trans hnext⟩
    · rcases List.mem_cons.mp hj with rfl | hj
      · simp
      · rw [List.mem_singleton.mp hj]
        exact hsub _ c.index_mem_indexes
    · -- the nodes below the child were freed before it
      have hj' := Shape.mem_indexes_unlinked hlength old hj hout
      by_cases htop : j = c.id.index
      · exact htop ▸ hfreed
      · refine hkeeps₂.still (fun hin => ?_) (hreleased j hj' (by simpa [Shrunk.indexes] using htop))
        rcases List.mem_cons.mp hin with rfl | hin
        · exact hbeside.above hj'
        · exact htop (List.mem_singleton.mp hin)
  · obtain ⟨rfl, hid, hc', -⟩ := hr
    rw [Shape.shrinkAbove_some]
    refine Ends.of_ok rfl ⟨⟨rfl, rfl, Shape.stored_above hp₁ hsize₁ hpage hid hothers hc', p, hp₁⟩,
      hkeeps.mono hsub, fun j hj hout => hreleased j ?_ fun hin => hout ?_, hnext⟩
    · simp only [Shrunk.indexes, Shape.indexes_inner, List.flatMap_append, List.flatMap_cons,
        List.mem_cons, List.mem_append, not_or] at hj hout
      tauto
    · simp only [Shrunk.indexes, Shape.indexes_inner, List.flatMap_append, List.flatMap_cons,
        List.mem_cons, List.mem_append] at hin ⊢
      tauto

/-- A row taken out below a stored shape, and the nodes freed that nothing is left of. Where
this fails, nothing has changed. -/
lemma removeFrom_ends (hR : t.rows.Lawful key) (husual : 512 ≤ s.size ∧ s.size ≤ 65536)
    (S : Shape ρ h) (hS : S.Stored B t.rows t.cache s) (hordered : S.Ordered key lo hi)
    (hdistinct : S.indexes.Nodup) (hmeta : 0 ∉ S.indexes) (row : ρ) (hlo : lo ≤ key row)
    (hhi : key row < hi) {depth : ℕ} (hdepth : h < depth) :
    Ends (t.removeFrom row depth S.id) s (Removes B t s S (S.remove key row))
      (fun e s' => B.Fails e ∧ s.Quiet B t.cache s') := by
  obtain ⟨depth, rfl⟩ := Nat.exists_eq_succ_of_ne_zero (Nat.ne_zero_of_lt hdepth)
  -- By induction on the height. On the way down nothing changes, so the hypothesis is used in the
  -- session that the search has come to.
  induction h generalizing s lo hi depth with
  | zero =>
      obtain ⟨id, rows, rfl⟩ := S.exists_leaf
      obtain ⟨p, hp, hsize, hpage⟩ := hS
      refine Ends.bind (Session.look_ends hp (t.arrive_leaf hR hpage hordered.1 row)) ?_
      rintro _ s₁ ⟨rfl, hquiet, hp₁⟩
      have hsize₁ : p.size = s₁.size := by rw [hquiet.keeps.size, hsize]
      rw [Shape.remove_leaf, Shape.shrinkLeaf]
      cases hat : Rows.place key row rows with
      | gap i =>
          exact Ends.of_ok rfl ⟨⟨rfl, rfl, ⟨p, hp₁.shows, hsize₁, hpage⟩, p, hp₁⟩,
            hquiet.then (.refl s₁), .refl _ _ _, hquiet.next⟩
      | found i =>
          obtain ⟨r, hr, -⟩ := hordered.1.of_found hat
          exact (eraseRow_ends hR (by rwa [Page.Usual, hsize]) hp₁ hsize₁ hpage hr).mono
            (fun _ _ h => h.of_quiet hquiet) fun _ _ h => h.elim
  | succ h ih =>
      obtain ⟨id, keys, children, rfl⟩ := S.exists_inner
      obtain ⟨⟨p, hp, hsize, hpage⟩, hchildren⟩ := hS
      have hseparators := hordered.separators.1
      obtain ⟨kb, ka, cb, c, ca, rfl, rfl, hroute⟩ := Fenced.exists_route hordered hlo hhi
      obtain ⟨lo', hi', hc, hlo', hhi', -⟩ := hroute.child
      refine Ends.bind (Session.look_ends hp (arrive_child hR hpage hseparators hroute.place)) ?_
      rintro _ s₁ ⟨rfl, hquiet, hp₁⟩
      have hsize₁ : s₁.size = s.size := hquiet.keeps.size
      obtain ⟨depth, rfl⟩ := Nat.exists_eq_succ_of_ne_zero (show depth ≠ 0 by omega)
      have hmeta' : 0 ∉ c.indexes := fun hin => hmeta (by simp [hin])
      have hstored : ∀ d ∈ cb ++ c :: ca, d.Stored B t.rows t.cache s₁ := fun d hd =>
        (hchildren d hd).quiet hquiet
      have hrec := ih (s := s₁) (by rwa [hsize₁]) c (hstored c (by simp)) hc
        (Shape.beside_of_nodup hdistinct).distinct hmeta' hlo' hhi' depth (by omega)
      refine Ends.bind (hrec.mono_error fun _ _ h => ⟨h.1, hquiet.trans h.2⟩) ?_
      intro below s₂ hbelow
      rw [Shape.remove_route hroute]
      exact (removeAbove_ends hR (by rwa [Page.Usual, hsize]) hp₁ (by rw [hsize₁, hsize]) hpage
        hordered.length hdistinct (fun heq => hmeta' (heq ▸ c.index_mem_indexes)) hstored
        hbelow).mono (fun _ _ h => h.of_quiet hquiet) fun _ _ h => h.elim

/-! ### The root -/

omit [Device δ] in
/-- The meta page gets the child as its root, and a level less. -/
lemma exists_lowerRoot {top : PageId} {level : ℕ} (h : MetaPage.Leads top (level + 1) p)
    (id : PageId) :
    ∃ q, lowerRoot id p = (.ok (), q) ∧ q.size = p.size ∧ MetaPage.Leads id level q := by
  obtain ⟨q, henter, hsize, hq⟩ :=
    MetaPage.exists_enter h.size_le id (Nat.lt_of_succ_lt h.level_lt)
  refine ⟨q, ?_, hsize, hq⟩
  rw [lowerRoot, run_bind_ok (PageM.look_ok h.level)]
  exact henter

/-- One round of giving way after another. -/
lemma Shrinks.trans {s' s'' : Session δ} {T' T'' : TreeShape ρ} {n n' : ℕ}
    (h : t.Shrinks B s T s' T' n) (h' : t.Shrinks B s' T' s'' T'' n') :
    t.Shrinks B s T s'' T'' n' where
  holds := h'.holds
  keeps := h.keeps.trans (h'.keeps.mono fun i hi =>
    List.mem_cons.mpr ((List.mem_cons.mp hi).imp_right (h.sub i)))
  next := h'.next
  sub i hi := h.sub i (h'.sub i hi)
  released := h.released.trans h'.released h'.keeps fun i hi hfreed => by
    obtain rfl | hi := List.mem_cons.mp hi
    · obtain ⟨m, hm, -⟩ := h.holds.root
      exact absurd hfreed hm.not_freed
    · exact hi

/-- A call that changes nothing leaves the tree as it is. -/
lemma Holds.shrinks_quiet (hT : t.Holds B s T) {n : ℕ} (hn : s.next? t.cache = some n)
    {s' : Session δ} (hquiet : s.Quiet B t.cache s') : t.Shrinks B s T s' T n :=
  ⟨⟨hT.quiet hquiet, hquiet.then (.refl s'), hquiet.next.trans hn⟩, fun _ hi => hi, .refl _ _ _⟩

/-- A root in memory gives way to its only child, and its page is freed. -/
lemma lower_run {id : PageId} {c : Shape ρ h} (hS : t.Holds B s ⟨h + 1, .inner id [] [c]⟩) {n : ℕ}
    (hn : s.next? t.cache = some n) {m : Page} (hm : s.InMemory t.cache 0 m)
    (hp : s.InMemory t.cache id.index p) :
    ∃ s₁ s₂, Session.edit t.cache .metaPage (lowerRoot c.id) s = (.ok (), s₁) ∧
      Session.free t.cache id s₁ = (.ok (), s₂) ∧ (∃ m', s₂.InMemory t.cache 0 m') ∧
      t.Shrinks B s ⟨h + 1, .inner id [] [c]⟩ s₂ ⟨h, c⟩ n := by
  obtain ⟨m₀, hm₀, hleads⟩ := hS.root
  obtain rfl : m = m₀ := hm.unique_of_shows hm₀
  obtain ⟨-, hchildren⟩ := hS.stored
  obtain ⟨hid, hdistinct⟩ := List.nodup_cons.mp (show (id.index :: ([c].flatMap Shape.indexes)).Nodup
    from hS.distinct)
  have hmeta : 0 ∉ id.index :: [c].flatMap Shape.indexes := hS.meta_notMem
  rw [List.flatMap_singleton] at hid hdistinct hmeta
  rw [List.mem_cons, not_or] at hmeta
  obtain ⟨hroot, hzero⟩ := hmeta
  obtain ⟨m', hlower, -, hleads'⟩ := exists_lowerRoot hleads c.id
  obtain ⟨s₁, hedit, hm₁, hkeeps₁, hnext₁⟩ := Session.edit_meta_memory (B := B) hm hlower
  have hp₁ := hkeeps₁.memory (fun hin => hroot (List.mem_singleton.mp hin).symm) hp
  obtain ⟨s₂, hfree, hkeeps₂, hfreed, hnext₂⟩ := Session.free_memory (B := B) hp₁ (Ne.symm hroot)
  have hm₂ : s₂.InMemory t.cache 0 m' :=
    hkeeps₂.memory (fun hin => hroot (List.mem_singleton.mp hin)) hm₁
  have hkeeps : s.Keeps B t.cache [0, id.index] s₂ :=
    (hkeeps₁.mono (by intro j hj; exact List.mem_cons.mpr (.inl (List.mem_singleton.mp hj)))).trans
      (hkeeps₂.mono (by simp))
  -- The child is held in its old pages, none of which is the one that was freed.
  refine ⟨s₁, s₂, hedit, hfree, ⟨m', hm₂⟩, ⟨⟨?_, ⟨m', hm₂.shows, hleads'⟩, ?_, hdistinct, hzero⟩,
    hkeeps.mono fun j hj => ?_, by rw [hnext₂, hnext₁, hn]⟩, fun j hj => ?_, fun j hj hout => ?_⟩
  · rw [hkeeps.size]
    exact hS.size
  · refine (hchildren c (by simp)).keeps hkeeps fun j hj hin => ?_
    rcases List.mem_cons.mp hin with rfl | hin
    · exact hzero hj
    · exact hid (List.mem_singleton.mp hin ▸ hj)
  · rcases List.mem_cons.mp hj with rfl | hj
    · exact List.mem_cons_self
    · rw [List.mem_singleton.mp hj]
      exact List.mem_cons_of_mem _ List.mem_cons_self
  · simpa [TreeShape.indexes] using Or.inr hj
  · obtain rfl : j = id.index := by
      refine (List.mem_cons.mp hj).resolve_right fun hin => hout ?_
      rwa [List.flatMap_singleton] at hin
    exact hfreed

variable (B t) in
/-- A root was on its way to giving way: the tree is one that its shape passes through, and
the root of that cannot be loaded. -/
def Stuck (s : Session δ) (S : Shape ρ h) (n : ℕ) (s' : Session δ) (T' : TreeShape ρ) : Prop :=
  S.Yields T' ∧ t.Shrinks B s ⟨h, S⟩ s' T' n ∧ ∀ p, ¬ s'.InMemory t.cache T'.top.id.index p

/-- A root with a single child gives way to it, as long as there is one. The next root may
turn out to be out of reach; if that is the first one, it was not in memory before. -/
lemma collapse_ends (hR : t.rows.Lawful key) (S : Shape ρ h) (hS : t.Holds B s ⟨h, S⟩)
    (hordered : S.Ordered key ⊥ ⊤) {n : ℕ} (hn : s.next? t.cache = some n) {m : Page}
    (hm : s.InMemory t.cache 0 m) {depth : ℕ} (hdepth : h < depth) :
    Ends (t.collapseRoot depth) s (fun _ s' => t.Shrinks B s ⟨h, S⟩ s' S.collapse n)
      (fun e s' => B.Fails e ∧ ∃ T', Stuck B t s S n s' T' ∧
        (T'.height = h → ∀ p, ¬ s.InMemory t.cache S.id.index p)) := by
  obtain ⟨depth, rfl⟩ := Nat.exists_eq_succ_of_ne_zero (Nat.ne_zero_of_lt hdepth)
  induction h generalizing s m depth with
  | zero =>
      obtain ⟨id, rows, rfl⟩ := S.exists_leaf
      obtain ⟨p, hp, -, hpage⟩ := hS.stored
      refine Ends.bind_ok (hS.root_run hm) (Ends.bind ((Session.view_ends_absent hp
        (t.onlyChild?_leaf hpage)).mono_error ?_) ?_)
      · rintro e s' ⟨hfails, hquiet, habsent⟩
        exact ⟨hfails, _, ⟨.refl _, hS.shrinks_quiet hn hquiet, habsent⟩,
          fun _ q hq => habsent q (hquiet.memory hq)⟩
      · rintro _ s₁ ⟨rfl, hquiet, -⟩
        exact Ends.of_ok rfl (hS.shrinks_quiet hn hquiet)
  | succ h ih =>
      obtain ⟨id, keys, children, rfl⟩ := S.exists_inner
      obtain ⟨⟨p, hp, -, hpage⟩, -⟩ := hS.stored
      refine Ends.bind_ok (hS.root_run hm) (Ends.bind ((Session.view_ends_absent hp
        (t.onlyChild?_inner hR hpage)).mono_error ?_) ?_)
      · rintro e s' ⟨hfails, hquiet, habsent⟩
        exact ⟨hfails, _, ⟨.refl _, hS.shrinks_quiet hn hquiet, habsent⟩,
          fun _ q hq => habsent q (hquiet.memory hq)⟩
      · rintro _ s₁ ⟨rfl, hquiet, hp₁⟩
        have hshrinks := hS.shrinks_quiet hn hquiet
        obtain ⟨c, rfl, rfl⟩ | ⟨k, ks, c, cs, rfl, rfl⟩ := Fenced.cases hordered
        · -- the child becomes the root before it is looked at
          obtain ⟨s₂, s₃, hedit, hfree, ⟨m', hm'⟩, hlower⟩ :=
            lower_run hshrinks.holds hshrinks.next (hquiet.memory hm) hp₁
          obtain ⟨depth, rfl⟩ := Nat.exists_eq_succ_of_ne_zero (show depth ≠ 0 by omega)
          have hlower' := hshrinks.trans hlower
          refine Ends.bind_ok hedit (Ends.bind_ok hfree ((ih c hlower'.holds hordered hlower'.next hm'
            depth (by omega)).mono (fun _ _ h => hlower'.trans h) ?_))
          rintro e s' ⟨hfails, T', ⟨hyields, hshrinks', habsent⟩, -⟩
          refine ⟨hfails, T', ⟨.step id hyields, hlower'.trans hshrinks', habsent⟩, fun hheight => ?_⟩
          have := hyields.height_le
          omega
        · exact Ends.of_ok rfl hshrinks

/-- A root that nothing is left of becomes an empty leaf. -/
lemma resetRoot_ends (hR : t.rows.Lawful key) (husual : 512 ≤ s.size ∧ s.size ≤ 65536) {m : Page}
    (hp : s.InMemory t.cache id.index p) (hsize : p.size = s.size)
    (hvacant : VacantPage t.rows id p h) (hm : s.InMemory t.cache 0 m)
    (hleads : MetaPage.Leads id h m) (hmeta : id.index ≠ 0) :
    Ends (t.resetRoot id) s
      (fun _ s' => t.Holds B s' ⟨0, .leaf id []⟩ ∧ s.Keeps B t.cache [0, id.index] s' ∧
        s'.next? t.cache = s.next? t.cache ∧ (∃ m', s'.InMemory t.cache 0 m') ∧
        ∃ p', s'.InMemory t.cache id.index p')
      (fun _ _ => False) := by
  cases h with
  | zero =>
      obtain ⟨s₁, hedit, hp₁, hkeeps, hnext⟩ :=
        Session.edit_memory (B := B) hp (t.clearRoot_leaf hvacant)
      have hm₁ := hkeeps.memory (by simpa using hmeta.symm) hm
      refine Ends.bind_ok hedit (Ends.of_ok rfl ⟨⟨by rwa [hkeeps.size], ⟨m, hm₁.shows, hleads⟩,
        ⟨p, hp₁.shows, by rw [hkeeps.size, hsize], hvacant⟩, List.nodup_singleton _, ?_⟩,
        hkeeps.mono (by simp), hnext, ⟨m, hm₁⟩, p, hp₁⟩)
      exact fun hin => hmeta (List.mem_singleton.mp hin).symm
  | succ h =>
      -- An inner node is written over as a leaf, and the level goes down to that of leaves.
      obtain ⟨links, hpage⟩ := hvacant
      obtain ⟨q, hclear, hqsize, hq⟩ := t.exists_clearRoot hR (by rwa [Page.Usual, hsize]) hpage
      obtain ⟨s₁, hedit, hq₁, hkeeps, hnext⟩ := Session.edit_memory (B := B) hp hclear
      have hm₁ := hkeeps.memory (by simpa using hmeta.symm) hm
      obtain ⟨m', hlevel, -, hroot', hlevel'⟩ :=
        MetaPage.exists_setLevel (n := 0) hleads.size_le (by decide)
      obtain ⟨s₂, hedit₂, hm₂, hkeeps₂, hnext₂⟩ :=
        Session.edit_meta_memory (B := B) hm₁ hlevel
      have hq₂ := hkeeps₂.memory (fun hin => hmeta (List.mem_singleton.mp hin)) hq₁
      have hkept : s.Keeps B t.cache [0, id.index] s₂ := by
        refine (hkeeps.mono (by simp)).trans (hkeeps₂.mono fun j hj => ?_)
        exact List.mem_cons.mpr (.inl (List.mem_singleton.mp hj))
      have hlower : (if id.index = 0 then throw .stuck
          else Session.edit t.cache .metaPage (MetaPage.setLevel 0) : SessionM δ Unit) s₁ = (.ok (), s₂) := by
        rwa [if_neg hmeta]
      refine Ends.bind_ok hedit (Ends.of_ok hlower ⟨⟨by rwa [hkept.size],
        ⟨m', hm₂.shows, hroot'.trans hleads.root, hlevel'⟩,
        ⟨q, hq₂.shows, by rw [hkept.size, hqsize, hsize], hq⟩, List.nodup_singleton _, ?_⟩,
        hkept, hnext₂.trans hnext, ⟨m', hm₂⟩, q, hq₂⟩)
      exact fun hin => hmeta (List.mem_singleton.mp hin).symm

/-! ### Whole trees -/

variable (B t key) in
/-- What a failed removal leaves: the tree as it was, or one without the row and with a lower
root that cannot be loaded. -/
def Unremoved (s : Session δ) (T : TreeShape ρ) (row : ρ) (n : ℕ) (s' : Session δ) : Prop :=
  s.Quiet B t.cache s' ∨ ∃ T', t.Shrinks B s T s' T' n ∧ T'.Ordered key ∧
    T'.rows = Rows.erase key row T.rows ∧ T'.height < T.height ∧
    ∀ p, ¬ s'.InMemory t.cache T'.top.id.index p

/-- What follows once the tree without the row is held, with its root in memory: the root
gives way as far as it can. -/
lemma finishRemove_ends (hR : t.rows.Lawful key) (S : Shape ρ h) {row : ρ} {n : ℕ} {s₁ : Session δ}
    (hshrinks : t.Shrinks B s T s₁ ⟨h, S⟩ n) (hordered : S.Ordered key ⊥ ⊤)
    (hrows : S.rows = Rows.erase key row T.rows) (hle : h ≤ T.height)
    (hmeta : ∃ m, s₁.InMemory t.cache 0 m) (htop : ∃ p, s₁.InMemory t.cache S.id.index p)
    (old : Option ρ) :
    Ends (do t.collapseRoot (← t.reach); return old) s₁
      (fun o s' => o = old ∧ t.Shrinks B s T s' S.collapse n)
      (fun e s' => B.Fails e ∧ Unremoved B t key s T row n s') := by
  obtain ⟨m, hm⟩ := hmeta
  obtain ⟨p, hp⟩ := htop
  have hlt : h < n := hshrinks.holds.height_lt hordered hshrinks.next
  refine Ends.bind_ok (reach_run hshrinks.next) (((collapse_ends hR S hshrinks.holds hordered
    hshrinks.next hm (show h < n + 1 by omega)).mono_error ?_).bind fun _ s₂ hs₂ => ?_)
  · rintro e s' ⟨hfails, T', ⟨hyields, hshrinks', habsent⟩, hroot⟩
    have hne : T'.height ≠ h := fun heq => hroot heq p hp
    have := hyields.height_le
    exact ⟨hfails, .inr ⟨T', hshrinks.trans hshrinks', hyields.ordered hordered,
      hyields.rows_eq.trans hrows, by omega, habsent⟩⟩
  · exact Ends.of_ok rfl ⟨rfl, hshrinks.trans hs₂⟩

/-- A row taken out of a held tree: the tree is that of the shape without the row, or the
device failed. -/
theorem Holds.remove_ends_unremoved (hR : t.rows.Lawful key) (hT : t.Holds B s T)
    (hordered : T.Ordered key) (row : ρ) {n : ℕ} (hn : s.next? t.cache = some n) :
    Ends (t.remove row) s
      (fun old s' => old = (T.remove key row).1 ∧ t.Shrinks B s T s' (T.remove key row).2 n)
      (fun e s' => B.Fails e ∧ Unremoved B t key s T row n s') := by
  obtain ⟨m, hm, hleads⟩ := hT.root
  have hheight := hT.height_lt hordered hn
  refine ((Session.view_meta_ends hm hleads.root).mono_error fun _ _ h => ⟨h.1, .inl h.2⟩).bind ?_
  rintro _ s₁ ⟨rfl, hquiet, hm₁⟩
  refine Ends.bind_ok (reach_run (hquiet.next.trans hn)) ?_
  have hsize₁ : s₁.size = s.size := hquiet.keeps.size
  have hrec := removeFrom_ends (B := B) hR (by rw [hsize₁]; exact hT.size) T.top
    (hT.stored.quiet hquiet) hordered hT.distinct hT.meta_notMem row bot_le (WithTop.coe_lt_top _)
    (show T.height < n + 1 by omega)
  have hmeets : (T.top.remove key row).Meets key ⊥ ⊤ row T.top :=
    Shape.remove_meets hordered bot_le (WithTop.coe_lt_top _)
  have hcount := Shape.count_remove_le key T.top row
  have hsub : ∀ j ∈ T.top.indexes, j ∈ 0 :: T.indexes := fun j hj => List.mem_cons_of_mem 0 hj
  rw [TreeShape.remove]
  generalize T.top.remove key row = left at hrec hmeets hcount ⊢
  refine (hrec.mono_error fun _ _ h => ⟨h.1, .inl (hquiet.trans h.2)⟩).bind ?_
  rintro r s₂ ⟨hr, hkeeps, hreleased, hnext⟩
  have hm₂ := hkeeps.memory hT.meta_notMem hm₁
  have hkeeps₂ := hquiet.then (hkeeps.mono hsub)
  have hnext₂ := (hnext.trans hquiet.next).trans hn
  -- Nothing is left below the root, which is made an empty leaf; or the root is still there, and
  -- gives way while it has but one child.
  obtain ⟨old, _ | top⟩ := left
  · obtain ⟨rfl, p, hp, hsize, hvacant⟩ := hr
    have hroot : T.top.id.index ≠ 0 := fun heq =>
      hT.meta_notMem (heq ▸ T.top.index_mem_indexes)
    refine ((resetRoot_ends (B := B) hR (by rw [hkeeps₂.size]; exact hT.size) hp hsize hvacant hm₂ hleads
      hroot).mono_error fun _ _ h => h.elim).bind ?_
    rintro _ s₃ ⟨hS, hkeeps₃, hnext₃, hm₃, hp₃⟩
    refine finishRemove_ends hR (.leaf T.top.id []) ⟨⟨hS, hkeeps₂.trans (hkeeps₃.mono fun j hj => ?_),
      hnext₃.trans hnext₂⟩, fun j hj => ?_, fun j hj hout => ?_⟩ ⟨List.Pairwise.nil, by simp⟩
      (hmeets.none rfl).symm (Nat.zero_le _) hm₃ hp₃ old
    · rcases List.mem_cons.mp hj with rfl | hj
      · exact List.mem_cons_self
      · rw [List.mem_singleton.mp hj]
        exact hsub _ T.top.index_mem_indexes
    · rw [List.mem_singleton.mp hj]
      exact T.top.index_mem_indexes
    · refine hkeeps₃.still (fun hin => ?_) (hreleased j hj hout)
      rcases List.mem_cons.mp hin with rfl | hin
      · exact hT.meta_notMem hj
      · exact hout hin
  · obtain ⟨rfl, hid, hstored, hp⟩ := hr
    obtain ⟨-, hordered', hrows, -⟩ := hmeets.some top rfl
    have hin : ∀ i ∈ top.indexes, i ∈ T.top.indexes := fun i hi =>
      List.count_pos_iff.mp ((List.count_pos_iff.mpr hi).trans_le (hcount top rfl i))
    have hdistinct : top.indexes.Nodup := List.nodup_iff_count_le_one.mpr fun i =>
      (hcount top rfl i).trans (List.nodup_iff_count_le_one.mp hT.distinct i)
    refine finishRemove_ends hR top ⟨⟨⟨by rw [hkeeps₂.size]; exact hT.size, ⟨m, hm₂.shows, ?_⟩, hstored,
      hdistinct, fun hzero => hT.meta_notMem (hin 0 hzero)⟩, hkeeps₂, hnext₂⟩, hin, hreleased⟩
      hordered' hrows le_rfl ⟨m, hm₂⟩ ?_ old
    · rwa [show top.id = T.top.id from hid]
    · rwa [show top.id = T.top.id from hid]

/-- A row taken out of a held tree: the tree is that of the shape without the row, or the
device failed. -/
theorem Holds.remove_ends (hR : t.rows.Lawful key) (hT : t.Holds B s T) (hordered : T.Ordered key)
    (row : ρ) {n : ℕ} (hn : s.next? t.cache = some n) :
    Ends (t.remove row) s
      (fun old s' => old = (T.remove key row).1 ∧ t.Shrinks B s T s' (T.remove key row).2 n)
      (fun e _ => B.Fails e) :=
  (hT.remove_ends_unremoved hR hordered row hn).mono_error fun _ _ h => h.1

end Tree

end PageCatalog
