import Mathlib.Tactic
import PageCatalog.Proofs.Store.Reading
import PageCatalog.Proofs.Tree.Making
import PageCatalog.Tree.Find
import PageCatalog.Tree.Put
import PageCatalog.Tree.Remove
import PageCatalog.Tree.Walk

/-!
Trees keep to their cache.

Every operation of a tree is built from calls for the pages of its cache, and every step on a
page leaves the page as long as it was. Nothing is said here of what is in the pages: this
holds over pages that are no nodes at all, and wherever an operation breaks off.

* `RowFormat.Steady`: rows that are written without a page growing or shrinking.
* `Tree.insertRow_steady` and others: the steps on one page.
* `Tree.find?_reads`, `Tree.walk_reads`, `Tree.recover_reads`: the operations that only ask.
* `Tree.find?_within`, `Tree.put_within`, `Tree.remove_within`, `Tree.start_within`,
  `Tree.walk_within`: the operations.
-/

namespace PageCatalog

open PageM Session

/-! ### Rows -/

/-- Rows that are written into a page and copied from page to page without it growing or
shrinking. -/
structure RowFormat.Steady {ρ : Type} (R : RowFormat ρ) : Prop where
  store : ∀ {p q : Page} {off : ℕ} {row : ρ}, R.store p off row = .ok q → q.size = p.size
  copy : ∀ {p q src : Page} {off i : ℕ}, R.copy p off src i = .ok q → q.size = p.size

/-- Both row formats keep the length of the page: they write a row over bytes that are there. -/
lemma RowFormat.Supported.steady {ρ κ : Type} [LinearOrder κ] {R : RowFormat ρ} {key : ρ → κ}
    (h : R.Supported key) : R.Steady := by
  cases h with
  | entries =>
      have hstore : ∀ {p q : Page} {off : ℕ} {e : Entry}, Entry.store p off e = .ok q → q.size = p.size := by
        intro p q off e h
        rw [Entry.store] at h
        split at h
        · cases h
        · exact Page.size_of_splice h
      refine ⟨hstore, fun {p q src off i} h => ?_⟩
      change Entry.copy p off src i = .ok q at h
      rw [Entry.copy_eq] at h
      rcases hload : Entry.load src i with reason | e <;> rw [hload] at h
      · cases h
      · exact hstore h
  | keys width _ =>
      refine ⟨fun h => Page.size_of_splice h, fun {p q src off i} h => ?_⟩
      change ((src.slice i 8).bind (p.splice off)) = .ok q at h
      cases hslice : src.slice i 8 with
      | error e =>
          rw [hslice] at h
          cases h
      | ok bs =>
          rw [hslice] at h
          exact Page.size_of_splice h

/-! ### Steps on one page -/

namespace Node

/-- Writing the number of slots keeps the page's length. -/
lemma setCount_steady (n : ℕ) : (setCount n).Steady := steady_change fun _ _ h => Page.size_of_splice h

/-- Making a page an empty node keeps its length. -/
lemma init_steady (L : NodeLayout) (id : PageId) : (init L id).Steady :=
  steady_change fun _ _ h => Page.size_of_splice h

/-- Moving the slots behind a place up by one keeps the page's length. -/
lemma openSlot_steady (L : NodeLayout) (i n : ℕ) : (openSlot L i n).Steady :=
  steady_change fun _ _ h => Page.size_of_slide h

/-- Moving the slots behind a place down by one keeps the page's length. -/
lemma closeSlot_steady (L : NodeLayout) (i n : ℕ) : (closeSlot L i n).Steady :=
  steady_change fun _ _ h => Page.size_of_slide h

/-- Writing a link keeps the page's length. -/
lemma setLink_steady (L : NodeLayout) (i : ℕ) (id : PageId) : (setLink L i id).Steady :=
  steady_change fun _ _ h => Page.size_of_splice h

/-- Opening a place among the links and writing one into it keeps the page's length. -/
lemma insertLink_steady (L : NodeLayout) (i n : ℕ) (id : PageId) : (insertLink L i n id).Steady :=
  (steady_change fun _ _ h => Page.size_of_slide h).bind fun _ => setLink_steady L i id

/-- Closing a place among the links keeps the page's length. -/
lemma removeLink_steady (L : NodeLayout) (i n : ℕ) : (removeLink L i n).Steady :=
  steady_change fun _ _ h => Page.size_of_slide h

end Node

namespace MetaPage

/-- Writing the root's id keeps the meta page's length. -/
lemma setRoot_steady (id : PageId) : (setRoot id).Steady := steady_change fun _ _ h => Page.size_of_splice h

/-- Writing the level keeps the meta page's length. -/
lemma setLevel_steady (n : ℕ) : (setLevel n).Steady := steady_change fun _ _ h => Page.size_of_splice h

end MetaPage

section Steps

variable {ρ : Type}

namespace RowFormat.Steady

variable {R : RowFormat ρ}

/-- Steady rows are stored in a slot without the page growing or shrinking. -/
lemma storeSlot (hR : R.Steady) (L : NodeLayout) (i : ℕ) (row : ρ) : (R.storeSlot L i row).Steady :=
  steady_change fun _ _ h => hR.store h

/-- Steady rows are copied from another page's slot without the page growing or shrinking. -/
lemma copySlot (hR : R.Steady) (L : NodeLayout) (i : ℕ) (K : NodeLayout) (src : Page) (j : ℕ) :
    (R.copySlot L i K src j).Steady :=
  steady_change fun _ _ h => hR.copy h

end RowFormat.Steady

namespace Tree

variable {t : Tree ρ} (hR : t.rows.Steady)
include hR

/-- Putting a row into a leaf keeps the page's length. -/
lemma insertRow_steady (i : ℕ) (row : ρ) : (t.insertRow i row).Steady :=
  (steady_look _).bind fun _ => (Node.openSlot_steady _ _ _).bind fun _ =>
    (hR.storeSlot _ _ _).bind fun _ => Node.setCount_steady _

/-- Writing a row over the one of its key keeps the page's length. -/
lemma replaceRow_steady (i : ℕ) (row : ρ) : (t.replaceRow i row).Steady :=
  (steady_look _).bind fun _ => (hR.storeSlot _ _ _).bind fun _ => steady_pure _

/-- Putting a separator and its link into an inner node keeps the page's length. -/
lemma insertSeparator_steady (i : ℕ) (sep : ρ) (right : PageId) : (t.insertSeparator i sep right).Steady :=
  (steady_look _).bind fun _ => (Node.openSlot_steady _ _ _).bind fun _ =>
    (hR.storeSlot _ _ _).bind fun _ => (Node.insertLink_steady _ _ _ _).bind fun _ =>
      Node.setCount_steady _

/-- A row of slots copied one by one keeps the page's length. -/
lemma copySlots_steady (L : NodeLayout) (src : Page) (n i j : ℕ) : (t.copySlots L src n i j).Steady := by
  induction n generalizing i j with
  | zero => exact steady_pure _
  | succ n ih => exact (hR.copySlot _ _ _ _ _).bind fun _ => ih _ _

omit hR in
/-- A row of links copied one by one keeps the page's length. -/
lemma copyLinks_steady (src : Page) (n i j : ℕ) : (t.copyLinks src n i j).Steady := by
  induction n generalizing i j with
  | zero => exact steady_pure _
  | succ n ih =>
      exact (steady_look _).bind fun _ => (Node.setLink_steady _ _ _).bind fun _ => ih _ _

/-- The right half of a split leaf is as long as the page it is written to. -/
lemma fillRightLeaf_steady (right : PageId) (left : Page) (mid count : ℕ) :
    (t.fillRightLeaf right left mid count).Steady :=
  (Node.init_steady _ _).bind fun _ => (copySlots_steady hR _ _ _ _ _).bind fun _ =>
    Node.setCount_steady _

/-- The right half of a split inner node is as long as the page it is written to. -/
lemma fillRightInner_steady (right : PageId) (left : Page) (mid count : ℕ) :
    (t.fillRightInner right left mid count).Steady :=
  (Node.init_steady _ _).bind fun _ => (copySlots_steady hR _ _ _ _ _).bind fun _ =>
    (copyLinks_steady _ _ _ _).bind fun _ => Node.setCount_steady _

/-- A new root is as long as the page it is written to. -/
lemma fillRoot_steady (id left : PageId) (sep : ρ) (right : PageId) :
    (t.fillRoot id left sep right).Steady :=
  (Node.init_steady _ _).bind fun _ => (hR.storeSlot _ _ _).bind fun _ =>
    (Node.setLink_steady _ _ _).bind fun _ => (Node.setLink_steady _ _ _).bind fun _ =>
      Node.setCount_steady _

omit hR in
/-- The meta page keeps its length as the root goes up, also where the level has no number above
it. -/
lemma raiseRoot_steady (id : PageId) : (raiseRoot id).Steady := by
  refine (steady_look _).bind fun level => ?_
  dsimp only
  split
  · exact (steady_throw _).bind fun _ => (MetaPage.setRoot_steady _).bind fun _ => MetaPage.setLevel_steady _
  · exact (MetaPage.setRoot_steady _).bind fun _ => MetaPage.setLevel_steady _

omit hR in
/-- The meta page keeps its length as the root goes down. -/
lemma lowerRoot_steady (id : PageId) : (lowerRoot id).Steady :=
  (steady_look _).bind fun _ => (MetaPage.setRoot_steady _).bind fun _ => MetaPage.setLevel_steady _

omit hR in
/-- Taking a row out of a leaf keeps the page's length. -/
lemma eraseRow_steady (i : ℕ) : (t.eraseRow i).Steady :=
  (steady_look _).bind fun _ => (steady_look _).bind fun _ => (Node.closeSlot_steady _ _ _).bind fun _ =>
    (Node.setCount_steady _).bind fun _ => steady_pure _

omit hR in
/-- Taking a child out of an inner node keeps the page's length, also where it was the only one.
-/
lemma eraseLink_steady (i : ℕ) : (t.eraseLink i).Steady := by
  refine (steady_look _).bind fun count => ?_
  split
  · exact steady_pure _
  · exact (Node.closeSlot_steady _ _ _).bind fun _ => (Node.removeLink_steady _ _ _).bind fun _ =>
      (Node.setCount_steady _).bind fun _ => steady_pure _

omit hR in
/-- Making an inner root an empty leaf keeps the page's length. -/
lemma clearRoot_steady (root : PageId) : (t.clearRoot root).Steady := by
  refine (steady_look _).bind fun kind => ?_
  cases kind with
  | leaf => exact steady_pure _
  | inner => exact (Node.init_steady _ _).bind fun _ => steady_pure _

end Tree

end Steps

/-! ### The operations -/

namespace Tree

variable {ρ δ β : Type} [Device δ] {t : Tree ρ}

section Reading

variable (t)

/-- Asking for the root only reads. -/
lemma root_reads : Session.Reads t.cache (t.root : SessionM δ PageId) := .view _ _

lemma root_within : Within t.cache (t.root : SessionM δ PageId) := t.root_reads.within

/-- Asking for the level only reads. -/
lemma level_reads : Session.Reads t.cache (t.level : SessionM δ ℕ) := .view _ _

lemma level_within : Within t.cache (t.level : SessionM δ ℕ) := t.level_reads.within

/-- Asking how far a path can go only reads: it is the number of pages. -/
lemma reach_reads : Session.Reads t.cache (t.reach : SessionM δ ℕ) :=
  Session.Reads.pageCount.bind fun _ => .pure _

lemma reach_within : Within t.cache (t.reach : SessionM δ ℕ) := t.reach_reads.within

/-- A tree takes its new pages from its own cache. -/
lemma allocate_within : Within t.cache (t.allocate : SessionM δ PageId) := .allocate _ _

/-- A search from a node only reads, by induction on how far the path can go. -/
lemma findFrom_reads (row : ρ) (n : ℕ) (id : PageId) :
    Session.Reads t.cache (t.findFrom row n id : SessionM δ (Option ρ)) := by
  induction n generalizing id with
  | zero => exact .throw _
  | succ n ih =>
      refine (Session.Reads.view _ _).bind fun arrival => ?_
      match arrival with
      | .leaf (.found i) => exact (Session.Reads.view _ _).map _
      | .leaf (.gap i) => exact .pure _
      | .inner i child => exact ih child

/-- A search from the root only reads, whatever is in the pages. -/
lemma find?_reads (row : ρ) : Session.Reads t.cache (t.find? row : SessionM δ (Option ρ)) :=
  t.reach_reads.bind fun _ => t.root_reads.bind fun _ => t.findFrom_reads row _ _

lemma find?_within (row : ρ) : Within t.cache (t.find? row : SessionM δ (Option ρ)) :=
  (t.find?_reads row).within

/-- Looking at the root of an existing tree only reads. -/
lemma recover_reads : Session.Reads t.cache (t.recover : SessionM δ Unit) := by
  refine t.root_reads.bind fun root => ?_
  have hrest := (Session.Reads.view (δ := δ) (c := t.cache) root (t.kind root)).map (fun _ => ())
  split
  · exact (Session.Reads.throw _).bind fun _ => hrest
  · exact hrest

/-! #### Walks -/

end Reading

/-- A walk begun with a value, as a computation on the session alone: the value at its end, and
how it ended. -/
def carried {α : Type} (m : WalkM δ β α) (b : β) : SessionM δ (β × Except Failure α) := fun s =>
  (.ok ((m (b, s)).2.1, (m (b, s)).1), (m (b, s)).2.2)

omit [Device δ] in
/-- A walk that goes on after a part that ended well, and stops with the value it has otherwise.
-/
lemma carried_bind {α γ : Type} (m : WalkM δ β α) (f : α → WalkM δ β γ) (b : β) :
    carried (m >>= f) b = carried m b >>= fun e => match e.2 with
      | .ok a => carried (f a) e.1
      | .error e' => pure (e.1, .error e') := by
  funext s
  rw [run_bind_ok (show carried m b s
    = (.ok ((m (b, s)).2.1, (m (b, s)).1), (m (b, s)).2.2) from rfl)]
  rcases hrun : m (b, s) with ⟨e | a, b', s'⟩
  · rw [carried, run_bind_error hrun]
    rfl
  · rw [carried, run_bind_ok hrun]
    rfl

omit [Device δ] in
/-- A walk that makes a call of the session keeps its value through it. -/
lemma carried_during {α : Type} (m : SessionM δ α) (b : β) :
    carried (during m : WalkM δ β α) b = (fun r => (b, r)) <$> caught m := by
  funext s
  exact (run_map_ok (show caught m s = (.ok (m s).1, (m s).2) from rfl) _).symm

/-- Two parts of a walk that only read are a walk that only reads. -/
lemma reads_carried_bind {c : CacheId} {α γ : Type} {m : WalkM δ β α} {f : α → WalkM δ β γ}
    (hm : ∀ b, Session.Reads c (carried m b)) (hf : ∀ a b, Session.Reads c (carried (f a) b)) (b : β) :
    Session.Reads c (carried (m >>= f) b) := by
  rw [carried_bind]
  refine (hm b).bind fun e => ?_
  rcases e with ⟨b', e' | a⟩
  · exact .pure _
  · exact hf a b'

/-- A call that only reads is a part of a walk that only reads. -/
lemma reads_carried_during {c : CacheId} {α : Type} {m : SessionM δ α} (hm : Session.Reads c m) (b : β) :
    Session.Reads c (carried (during m : WalkM δ β α) b) := by
  rw [carried_during]
  exact hm.caught.map _

/-- A list of parts that only read is a walk that only reads, by induction on the list. -/
lemma reads_carried_forM {c : CacheId} {α : Type} {f : α → WalkM δ β PUnit} (as : List α)
    (hf : ∀ a ∈ as, ∀ b, Session.Reads c (carried (f a) b)) (b : β) :
    Session.Reads c (carried (as.forM f) b) := by
  induction as generalizing b with
  | nil => exact .pure (b, Except.ok PUnit.unit)
  | cons a as ih =>
      exact reads_carried_bind (hf a List.mem_cons_self)
        (fun _ b => ih (fun a ha => hf a (List.mem_cons_of_mem _ ha)) b) b

/-- Visiting a row makes no call of the session at all, also where the visitor refuses it. -/
lemma reads_carried_visit {c : CacheId} (visit : β → ρ → Except Error β) (row : ρ) (b : β) :
    Session.Reads c (carried (visitRow visit row : WalkM δ β Unit) b) := by
  cases hvisit : visit b row with
  | ok b' =>
      rw [show carried (visitRow visit row : WalkM δ β Unit) b = pure (b', .ok ()) from by
        funext s
        simp [carried, visitRow, hvisit]]
      exact .pure _
  | error e =>
      rw [show carried (visitRow visit row : WalkM δ β Unit) b = pure (b, .error (.error e)) from by
        funext s
        simp [carried, visitRow, hvisit]]
      exact .pure _

variable (t) in
/-- A walk from a node only reads: the rows of a leaf are visited, the children of an inner node
walked from by the hypothesis. -/
lemma walkFrom_reads (visit : β → ρ → Except Error β) (n : ℕ) (id : PageId) (b : β) :
    Session.Reads t.cache (carried (t.walkFrom visit n id : WalkM δ β Unit) b) := by
  induction n generalizing id b with
  | zero => exact .pure (b, Except.error Failure.endless)
  | succ n ih =>
      refine reads_carried_bind (reads_carried_during (.view _ _)) (fun content b => ?_) b
      cases content with
      | leaf rows => exact reads_carried_forM rows (fun row _ => reads_carried_visit visit row) b
      | inner children => exact reads_carried_forM children (fun child _ => ih child) b

variable (t) in
/-- A walk from the root only reads, whatever the visitor says. -/
lemma walk_reads (visit : β → ρ → Except Error β) (b : β) (depth : ℕ) :
    Session.Reads t.cache (t.walk visit b depth : SessionM δ (β × Except Failure Unit)) := by
  have hwalk : (t.walk visit b depth : SessionM δ _)
      = carried (do t.walkFrom visit depth (← during t.root) : WalkM δ β Unit) b := rfl
  rw [hwalk]
  exact reads_carried_bind (reads_carried_during t.root_reads)
    (fun root b => t.walkFrom_reads visit depth root b) b

variable (t) in
lemma walk_within (visit : β → ρ → Except Error β) (b : β) (depth : ℕ) :
    Within t.cache (t.walk visit b depth : SessionM δ (β × Except Failure Unit)) :=
  (t.walk_reads visit b depth).within

variable (t) in
/-- Folding over the rows only reads. -/
lemma fold_reads (f : β → ρ → β) (b : β) : Session.Reads t.cache (t.fold f b : SessionM δ β) :=
  t.reach_reads.bind fun _ => (t.walk_reads _ _ _).bind fun _ => .settle _

variable (t) in
/-- Listing the rows only reads. -/
lemma toList_reads : Session.Reads t.cache (t.toList : SessionM δ (List ρ)) :=
  (t.fold_reads _ _).bind fun _ => .pure _

variable (t) in
lemma toList_within : Within t.cache (t.toList : SessionM δ (List ρ)) := t.toList_reads.within

variable (t) in
/-- Counting the rows only reads. -/
lemma size_reads : Session.Reads t.cache (t.size : SessionM δ ℕ) := t.fold_reads _ _

variable (t) in
lemma size_within : Within t.cache (t.size : SessionM δ ℕ) := t.size_reads.within

variable (t) in
/-- Walking over the first rows only reads. -/
lemma scan_reads (limit : ℕ) :
    Session.Reads t.cache (t.scan limit : SessionM δ (List ρ × Except Failure Unit)) :=
  t.reach_reads.bind fun _ => (t.walk_reads _ _ _).bind fun _ => .pure _

variable (t) in
lemma scan_within (limit : ℕ) : Within t.cache (t.scan limit : SessionM δ (List ρ × Except Failure Unit)) :=
  (t.scan_reads limit).within

/-! #### Changes -/

/-- Making a tree takes one page and writes it and the meta page. -/
lemma create_within : Within t.cache (t.create : SessionM δ Unit) :=
  t.allocate_within.bind fun root => (Within.edit root (Node.init_steady _ _)).bind fun _ =>
    Within.edit _ ((MetaPage.setRoot_steady _).bind fun _ => MetaPage.setLevel_steady _)

lemma recover_within : Within t.cache (t.recover : SessionM δ Unit) := t.recover_reads.within

/-- Opening a tree keeps to its cache, be it new or not. -/
lemma start_within (fresh? : Option Bool) : Within t.cache (t.start fresh? : SessionM δ Unit) :=
  t.root_within.bind fun _ => .ite create_within recover_within

section Changing

variable (hR : t.rows.Steady)
include hR

/-- Splitting a leaf writes the leaf and the page made for its right half. -/
lemma splitLeaf_within (id : PageId) (count i : ℕ) (row : ρ) :
    Within t.cache (t.splitLeaf id count i row : SessionM δ (PutResult ρ)) := by
  refine t.allocate_within.bind fun right => (Within.view id _).bind fun left =>
    (Within.edit right (fillRightLeaf_steady hR _ _ _ _)).bind fun _ =>
      (Within.edit id (Node.setCount_steady _)).bind fun _ => ?_
  dsimp only
  split
  · exact (Within.edit id (insertRow_steady hR _ _)).bind fun _ => (Within.view right _).bind fun _ => .pure _
  · exact (Within.edit right (insertRow_steady hR _ _)).bind fun _ => (Within.view right _).bind fun _ => .pure _

/-- Putting a row into a leaf writes that leaf, or splits it. -/
lemma putInLeaf_within (id : PageId) (at_ : Position) (row : ρ) :
    Within t.cache (t.putInLeaf id at_ row : SessionM δ (PutResult ρ)) := by
  cases at_ with
  | found i => exact (Within.edit id (replaceRow_steady hR _ _)).bind fun _ => .pure _
  | gap i =>
      refine (Within.view id _).bind fun (count, size) => ?_
      dsimp only
      split
      · exact (Within.edit id (insertRow_steady hR _ _)).bind fun _ => .pure _
      · exact splitLeaf_within hR id count i row

/-- Splitting an inner node writes the node and the page made for its right half. -/
lemma splitInner_within (id : PageId) (count i : ℕ) (sep : ρ) (link : PageId) :
    Within t.cache (t.splitInner id count i sep link : SessionM δ (ρ × PageId)) := by
  refine (Within.view id _).bind fun promoted => t.allocate_within.bind fun right =>
    (Within.view id _).bind fun left => (Within.edit right (fillRightInner_steady hR _ _ _ _)).bind fun _ =>
      (Within.edit id (Node.setCount_steady _)).bind fun _ => ?_
  dsimp only
  split
  · exact (Within.edit id (insertSeparator_steady hR _ _ _)).bind fun _ => .pure _
  · exact (Within.edit right (insertSeparator_steady hR _ _ _)).bind fun _ => .pure _

/-- Putting a separator into an inner node writes that node, or splits it. -/
lemma putSeparator_within (id : PageId) (i : ℕ) (sep : ρ) (link : PageId) :
    Within t.cache (t.putSeparator id i sep link : SessionM δ (Option (ρ × PageId))) := by
  refine (Within.view id _).bind fun (count, size) => ?_
  dsimp only
  split
  · exact (Within.edit id (insertSeparator_steady hR _ _ _)).bind fun _ => .pure _
  · exact (splitInner_within hR id count i sep link).map _

/-- An insertion from a node keeps to the cache: on the way down nodes are searched, on the way up
the separators of split children are put in. -/
lemma putFrom_within (row : ρ) (n : ℕ) (id : PageId) :
    Within t.cache (t.putFrom row n id : SessionM δ (PutResult ρ)) := by
  induction n generalizing id with
  | zero => exact .throw _
  | succ n ih =>
      refine (Within.edit id (steady_look _)).bind fun arrival => ?_
      cases arrival with
      | leaf at_ => exact putInLeaf_within hR id at_ row
      | inner i child =>
          refine (ih child).bind fun below => ?_
          rcases below with ⟨old, _ | ⟨sep, right⟩⟩
          · exact .pure _
          · exact (putSeparator_within hR id i sep right).bind fun _ => .pure _

/-- An insertion keeps to its tree's cache, also where the row is too long and where the root
splits. -/
theorem put_within (row : ρ) : Within t.cache (t.put row : SessionM δ (Option ρ)) := by
  rw [put]
  cases t.rows.fits row
  on_goal 1 => refine (Within.throw _).bind fun _ => ?_
  all_goals
    refine t.root_within.bind fun root => t.reach_within.bind fun n =>
      (putFrom_within hR row n root).bind fun result => ?_
    rcases result with ⟨old, _ | ⟨sep, right⟩⟩
    · exact .pure _
    · exact t.allocate_within.bind fun new => (Within.edit new (fillRoot_steady hR _ _ _ _)).bind fun _ =>
        (Within.edit _ (raiseRoot_steady _)).bind fun _ => .pure _

end Changing

/-- A removal from a node keeps to the cache: a child that is left empty is unlinked and freed. -/
lemma removeFrom_within (row : ρ) (n : ℕ) (id : PageId) :
    Within t.cache (t.removeFrom row n id : SessionM δ (RemoveResult ρ)) := by
  induction n generalizing id with
  | zero => exact .throw _
  | succ n ih =>
      refine (Within.edit id (steady_look _)).bind fun arrival => ?_
      match arrival with
      | .leaf (.gap i) => exact .pure _
      | .leaf (.found i) => exact .edit id (eraseRow_steady i)
      | .inner i child =>
          refine (ih child).bind fun below => .ite ?_ (.pure _)
          exact (Within.edit id (eraseLink_steady i)).bind fun _ => (Within.free child).bind fun _ => .pure _

/-- An empty root is made a leaf again. -/
lemma resetRoot_within (root : PageId) : Within t.cache (t.resetRoot root : SessionM δ Unit) :=
  (Within.edit root (clearRoot_steady root)).bind fun _ =>
    .ite (.ite (.throw _) (.edit _ (MetaPage.setLevel_steady 0))) (.pure _)

/-- A root with one child is freed after the meta page has been turned to that child. -/
lemma collapseRoot_within (n : ℕ) : Within t.cache (t.collapseRoot n : SessionM δ Unit) := by
  induction n with
  | zero => exact .throw _
  | succ n ih =>
      refine t.root_within.bind fun root => (Within.view root _).bind fun child => ?_
      cases child with
      | none => exact .pure _
      | some child =>
          exact (Within.edit _ (lowerRoot_steady child)).bind fun _ => (Within.free root).bind fun _ => ih

/-- A removal keeps to its tree's cache. -/
theorem remove_within (row : ρ) : Within t.cache (t.remove row : SessionM δ (Option ρ)) := by
  refine t.root_within.bind fun root => t.reach_within.bind fun n =>
    (removeFrom_within row n root).bind fun result => ?_
  have hrest : Within t.cache (do
      t.collapseRoot (← t.reach)
      return result.old : SessionM δ (Option ρ)) :=
    t.reach_within.bind fun n => (collapseRoot_within n).bind fun _ => .pure _
  dsimp only
  split
  · exact (resetRoot_within root).bind fun _ => hrest
  · exact hrest

end Tree

end PageCatalog
