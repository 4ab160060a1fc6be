import Mathlib.Tactic
import PageCatalog.Proofs.Node.Meta
import PageCatalog.Proofs.Node.Search
import PageCatalog.Proofs.Store.Access
import PageCatalog.Proofs.Tree.Shape

/-!
Trees in the pages of a session.

A shape is stored if every one of its nodes stands in the page of its id. A tree is
held by a session if the meta page leads to a stored shape, at the level of its height,
whose nodes are in pages of their own.

* `Shape.Stored`: a shape in pages; `Stored.keeps`: changes of other pages.
* `Tree.arrive_child`: where a search goes on.
* `Tree.Holds`: a whole tree in a session; `Holds.quiet`.
* `Tree.Holds.height_lt`: a path down has fewer nodes than the cache has pages.
-/

namespace PageCatalog

section Stored

variable {ρ κ δ : Type} [LinearOrder κ] [Device δ] (B : Backing δ) (R : RowFormat ρ) (c : CacheId)
  {s s' : Session δ} {h : ℕ}

/-- The nodes of a shape stand in the pages of their ids. -/
def Shape.Stored (s : Session δ) : {h : ℕ} → Shape ρ h → Prop
  | 0, .leaf id rows => ∃ p, s.Shows B c id.index p ∧ p.size = s.size ∧ R.LeafPage id rows p
  | _ + 1, .inner id keys children =>
    (∃ p, s.Shows B c id.index p ∧ p.size = s.size ∧ R.InnerPage id keys (children.map Shape.id) p) ∧
      ∀ child ∈ children, child.Stored s

variable {B R c}

@[simp] lemma stored_leaf {id : PageId} {rows : List ρ} :
    (Shape.leaf id rows).Stored B R c s ↔
      ∃ p, s.Shows B c id.index p ∧ p.size = s.size ∧ R.LeafPage id rows p :=
  Iff.rfl

@[simp] lemma stored_inner {id : PageId} {keys : List ρ} {children : List (Shape ρ h)} :
    (Shape.inner id keys children).Stored B R c s ↔
      (∃ p, s.Shows B c id.index p ∧ p.size = s.size ∧
        R.InnerPage id keys (children.map Shape.id) p) ∧
        ∀ child ∈ children, child.Stored B R c s :=
  Iff.rfl

namespace Shape

/-- A shape is stored wherever its pages are shown. -/
lemma Stored.transport {δ' : Type} [Device δ'] {B' : Backing δ'} {s' : Session δ'} {T : Shape ρ h}
    (hT : T.Stored B R c s) (hsize : s'.size = s.size)
    (hshows : ∀ i ∈ T.indexes, ∀ p, s.Shows B c i p → s'.Shows B' c i p) : T.Stored B' R c s' := by
  induction h with
  | zero =>
      obtain ⟨id, rows, rfl⟩ := T.exists_leaf
      obtain ⟨p, hp, hpsize, hpage⟩ := hT
      exact ⟨p, hshows _ (by simp) p hp, hpsize.trans hsize.symm, hpage⟩
  | succ h ih =>
      obtain ⟨id, keys, children, rfl⟩ := T.exists_inner
      obtain ⟨⟨p, hp, hpsize, hpage⟩, hchildren⟩ := hT
      refine ⟨⟨p, hshows _ (by simp) p hp, hpsize.trans hsize.symm, hpage⟩, fun child hchild => ?_⟩
      refine ih (hchildren child hchild) fun i hi => hshows i ?_
      rw [indexes_inner]
      exact List.mem_cons_of_mem _ (List.mem_flatMap.mpr ⟨child, hchild, hi⟩)

/-- Changes of other pages leave a shape as it is. -/
lemma Stored.keeps {T : Shape ρ h} (hT : T.Stored B R c s) {changed : List ℕ}
    (hkeeps : s.Keeps B c changed s') (hapart : ∀ i ∈ T.indexes, i ∉ changed) :
    T.Stored B R c s' :=
  hT.transport hkeeps.size fun i hi _ => hkeeps.shows (hapart i hi)

/-- A stored shape is stored after a call that changes nothing. -/
lemma Stored.quiet {T : Shape ρ h} (hT : T.Stored B R c s) (hquiet : s.Quiet B c s') :
    T.Stored B R c s' :=
  hT.keeps hquiet.keeps fun _ _ => List.not_mem_nil

/-- A change below one child leaves the node above and the other children as they are. -/
lemma Beside.kept {id : PageId} {cb ca : List (Shape ρ h)} {child : Shape ρ h} {p : Page}
    (hbeside : Beside id cb child ca) (hp : s.InMemory c id.index p)
    (hstored : ∀ d ∈ cb ++ child :: ca, d.Stored B R c s)
    (hkeeps : s.Keeps B c child.indexes s') :
    s'.InMemory c id.index p ∧ ∀ d ∈ cb ++ ca, d.Stored B R c s' := by
  refine ⟨hkeeps.memory hbeside.above hp, fun d hd => ?_⟩
  refine (hstored d ?_).keeps hkeeps (hbeside.others d hd)
  simp only [List.mem_append, List.mem_cons] at hd ⊢
  tauto

/-- An inner node over a changed child that kept its id. -/
lemma stored_above {id : PageId} {keys : List ρ} {cb ca : List (Shape ρ h)}
    {child child' : Shape ρ h} {p : Page} (hp : s.InMemory c id.index p) (hsize : p.size = s.size)
    (hpage : R.InnerPage id keys ((cb ++ child :: ca).map Shape.id) p) (hid : child'.id = child.id)
    (hothers : ∀ d ∈ cb ++ ca, d.Stored B R c s) (hchild : child'.Stored B R c s) :
    (inner id keys (cb ++ child' :: ca)).Stored B R c s := by
  refine ⟨⟨p, hp.shows, hsize, ?_⟩, fun d hd => ?_⟩
  · have hlinks : (cb ++ child' :: ca).map Shape.id = (cb ++ child :: ca).map Shape.id := by
      simp [hid]
    rwa [hlinks]
  · rcases List.mem_append.mp hd with hd | hd
    · exact hothers d (List.mem_append_left _ hd)
    · rcases List.mem_cons.mp hd with rfl | hd
      · exact hchild
      · exact hothers d (List.mem_append_right _ hd)

/-- The page of every node is shown. -/
lemma Stored.exists_shows {T : Shape ρ h} (hT : T.Stored B R c s) {i : ℕ} (hi : i ∈ T.indexes) :
    ∃ p, s.Shows B c i p := by
  induction h with
  | zero =>
      obtain ⟨id, rows, rfl⟩ := T.exists_leaf
      obtain ⟨p, hp, -⟩ := hT
      rw [List.mem_singleton.mp hi]
      exact ⟨p, hp⟩
  | succ h ih =>
      obtain ⟨id, keys, children, rfl⟩ := T.exists_inner
      obtain ⟨⟨p, hp, -⟩, hchildren⟩ := hT
      rcases List.mem_cons.mp hi with rfl | hi
      · exact ⟨p, hp⟩
      · obtain ⟨child, hchild, hi⟩ := List.mem_flatMap.mp hi
        exact ih (hchildren child hchild) hi

/-- A shape in pages of its own is not higher than the cache has pages. -/
lemma Stored.height_lt {key : ρ → κ} {lo : WithBot κ} {hi : WithTop κ} {T : Shape ρ h}
    (hT : T.Stored B R c s) (hordered : T.Ordered key lo hi) (hdistinct : T.indexes.Nodup) {n : ℕ}
    (hn : s.next? c = some n) : h < n := by
  have hsub : T.indexes ⊆ List.range n := fun i hi => by
    obtain ⟨p, hp⟩ := hT.exists_shows hi
    exact List.mem_range.mpr (hp.lt hn)
  have hle := (List.subperm_of_subset hdistinct hsub).length_le
  rw [List.length_range] at hle
  exact hordered.height_lt.trans_le hle

end Shape

/-- A search in an inner node goes on with the child at the place of the row. -/
lemma Tree.arrive_child {t : Tree ρ} {key : ρ → κ} (hR : t.rows.Lawful key) {id : PageId} {keys : List ρ}
    {cb ca : List (Shape ρ h)} {child : Shape ρ h} {p : Page}
    (hpage : t.rows.InnerPage id keys ((cb ++ child :: ca).map Shape.id) p)
    (hkeys : Rows.Ascending key keys) {row : ρ}
    (hplace : Tree.childAt (Rows.place key row keys) = cb.length) :
    t.arrive row id p = .ok (.inner cb.length child.id) := by
  have hlink : ((cb ++ child :: ca).map Shape.id)[Tree.childAt (Rows.place key row keys)]?
      = some child.id := by
    rw [hplace]
    simp
  rw [t.arrive_inner hR hpage hkeys row hlink, hplace]

/-! ### Whole trees -/

variable (B) in
/-- A session holds a tree of a given shape. -/
structure Tree.Holds (t : Tree ρ) (s : Session δ) (T : TreeShape ρ) : Prop where
  size : 512 ≤ s.size ∧ s.size ≤ 65536
  root : ∃ p, s.Shows B t.cache 0 p ∧ MetaPage.Leads T.top.id T.height p
  stored : T.top.Stored B t.rows t.cache s
  distinct : T.indexes.Nodup
  meta_notMem : 0 ∉ T.indexes

variable (B) in
/-- A session has come to hold another tree, in pages of the old one and in new ones. -/
structure Tree.Becomes (t : Tree ρ) (s : Session δ) (T : TreeShape ρ) (s' : Session δ)
    (T' : TreeShape ρ) (n : ℕ) : Prop where
  holds : t.Holds B s' T'
  keeps : s.Keeps B t.cache (0 :: T.indexes) s'
  next : s'.next? t.cache = some n

variable (B) in
/-- A session has come to hold a part of a tree, and the pages of the rest are freed. -/
structure Tree.Shrinks (t : Tree ρ) (s : Session δ) (T : TreeShape ρ) (s' : Session δ)
    (T' : TreeShape ρ) (n : ℕ) : Prop extends t.Becomes B s T s' T' n where
  sub : ∀ i ∈ T'.indexes, i ∈ T.indexes
  released : s'.Released t.cache T.indexes T'.indexes

namespace Tree

variable {t : Tree ρ} {T : TreeShape ρ}

/-- A tree is held wherever its pages are shown. -/
lemma Holds.transport {δ' : Type} [Device δ'] {B' : Backing δ'} {s' : Session δ'}
    (h : t.Holds B s T) (hsize : s'.size = s.size)
    (hshows : ∀ i ∈ 0 :: T.indexes, ∀ p, s.Shows B t.cache i p → s'.Shows B' t.cache i p) :
    t.Holds B' s' T := by
  obtain ⟨p, hp, hleads⟩ := h.root
  refine ⟨by rw [hsize]; exact h.size, ⟨p, hshows 0 List.mem_cons_self p hp, hleads⟩, ?_, h.distinct,
    h.meta_notMem⟩
  exact h.stored.transport hsize fun i hi => hshows i (List.mem_cons_of_mem 0 hi)

/-- A held tree is held after changes of other pages. -/
lemma Holds.keeps (h : t.Holds B s T) {changed : List ℕ} (hkeeps : s.Keeps B t.cache changed s')
    (hmeta : 0 ∉ changed) (hapart : ∀ i ∈ T.indexes, i ∉ changed) : t.Holds B s' T :=
  h.transport hkeeps.size fun i hi _ =>
    hkeeps.shows ((List.mem_cons.mp hi).elim (fun h => h ▸ hmeta) (hapart i))

/-- A held tree is held after a call that changes nothing. -/
lemma Holds.quiet (h : t.Holds B s T) (hquiet : s.Quiet B t.cache s') : t.Holds B s' T :=
  h.keeps hquiet.keeps List.not_mem_nil fun _ _ => List.not_mem_nil

/-- A tree that is held by some account is held by the steady one. -/
lemma Holds.steady (h : t.Holds B s T) : t.Holds (.steady δ) s T :=
  h.transport rfl fun _ _ _ hp => hp.steady

/-- The cache of a held tree is open. -/
lemma Holds.exists_next (h : t.Holds B s T) : ∃ n, s.next? t.cache = some n := by
  obtain ⟨p, ⟨k, f, hk, -⟩ | ⟨k, hk, -⟩, -⟩ := h.root
  · exact ⟨k.next, by rw [Session.next?, hk]; rfl⟩
  · exact ⟨k.next, by rw [Session.next?, hk]; rfl⟩

/-- The pages of a held tree are pages of its cache. -/
lemma Holds.lt_next (h : t.Holds B s T) {n i : ℕ} (hn : s.next? t.cache = some n)
    (hi : i ∈ T.indexes) : i < n := by
  obtain ⟨p, hp⟩ := h.stored.exists_shows hi
  exact hp.lt hn

/-- A tree is not as high as there are pages. -/
lemma Holds.height_lt {key : ρ → κ} (h : t.Holds B s T) (hordered : T.Ordered key) {n : ℕ}
    (hn : s.next? t.cache = some n) : T.height < n :=
  h.stored.height_lt hordered h.distinct hn

/-- The root of a held tree is found, unless the device fails. -/
lemma Holds.root_ends (h : t.Holds B s T) :
    Ends t.root s (fun id s' => id = T.top.id ∧ s.Quiet B t.cache s')
      (fun e s' => B.Fails e ∧ s.Quiet B t.cache s') := by
  obtain ⟨p, hp, hleads⟩ := h.root
  exact (Session.view_ends hp hleads.root).mono_ok fun _ _ h => ⟨h.1, h.2.1⟩

/-- With the meta page in memory, the root of a held tree is found without fail. -/
lemma Holds.root_run (h : t.Holds B s T) {m : Page} (hm : s.InMemory t.cache 0 m) :
    t.root s = (.ok T.top.id, s) := by
  obtain ⟨p, hp, hleads⟩ := h.root
  obtain rfl : m = p := hm.unique_of_shows hp
  rw [Tree.root, Session.view_memory (show s.InMemory t.cache PageId.metaPage.index m from hm),
    hleads.root]

/-- The level is the height, unless the device fails. -/
lemma Holds.level_ends (h : t.Holds B s T) :
    Ends t.level s (fun n s' => n = T.height ∧ s.Quiet B t.cache s')
      (fun e s' => B.Fails e ∧ s.Quiet B t.cache s') := by
  obtain ⟨p, hp, hleads⟩ := h.root
  exact (Session.view_ends hp hleads.level).mono_ok fun _ _ h => ⟨h.1, h.2.1⟩

/-- How far a path may go is told by the number of pages. -/
lemma reach_run {n : ℕ} (hn : s.next? t.cache = some n) : t.reach s = (.ok (n + 1), s) := by
  rw [reach, run_bind_ok (Session.pageCount_run hn)]
  rfl

end Tree

end Stored

end PageCatalog
