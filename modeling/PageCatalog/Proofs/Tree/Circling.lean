import Mathlib.Tactic
import PageCatalog.Proofs.Store.Serving
import PageCatalog.Proofs.Tree.Blocked
import PageCatalog.Proofs.Tree.Safety

/-!
How far a lookup goes.

A lookup goes on from node to node until it comes to a leaf or to a page that is refused.
A node names its own id, so a page that is met again under another id is refused. Met again
under its own id it is the same node once more, and leads to the same pages once more: then
the lookup goes round without an end. There is no other way for it to go on for ever.

* `Session.Sees`: sessions that see the pages of an array, over any device or one that serves.
* `Tree.Descends`: the nodes that a lookup goes on from; `Descends.apart` says that they are
  different pages, and `Descends.refused` what becomes of a page that comes twice.
* `Tree.Bounded`: both, and how many nodes there can be.
* `Tree.findWithin`: a lookup that goes so many pages far; `findWithin_eq` says that more
  pages than the cache has make no difference.
* `Tree.findFrom_circles`: a lookup that goes round.
* `Tree.find_ends_or_circles`: the two ways.
-/

namespace PageCatalog

/-! ### Going round -/

section Circles

variable {R : PageId → PageId → Prop} {id x : PageId}

/-- What goes round goes on, and still goes round. -/
lemma Circles.step (h : Circles R id) :
    ∃ child, R id child ∧ Circles R child := by
  obtain ⟨x, hreach, hround⟩ := h
  obtain rfl | ⟨child, hchild, hrest⟩ := hreach.cases_head
  · obtain ⟨child, hchild, hback⟩ := Relation.TransGen.head'_iff.mp hround
    exact ⟨child, hchild, id, hback, hround⟩
  · exact ⟨child, hchild, x, hrest, hround⟩

/-- A circle that is come to is one. -/
lemma Circles.of_reach (h : Circles R x)
    (hreach : Relation.ReflTransGen R id x) : Circles R id := by
  obtain ⟨y, hy, hround⟩ := h
  exact ⟨y, hreach.trans hy, hround⟩

end Circles

/-! ### Pages that can be seen -/

namespace Session

variable {δ : Type} [Device δ] {A : Device.Account δ} {c : CacheId} {a : PageArray}

/-- Sessions as in `P` see the pages of an array, unless a call fails as in `F`, and stay so. -/
def Sees (c : CacheId) (a : PageArray) (P : Session δ → Prop) (F : Failure → Prop) : Prop :=
  ∀ {α : Type} {s : Session δ} {id : PageId} {q : Page → Except Failure α} {r : α}, P s →
    a.Has id.index → q (a.page id.index) = .ok r →
    Ends (view c id q) s (fun r' s' => r' = r ∧ P s') fun e _ => F e

/-- A cache that goes with its file is seen as it is, unless the device fails. -/
lemma sees_backed (A : Device.Account δ) (c : CacheId) (a : PageArray) :
    Sees c a (fun s => s.Backed A c ∧ s.array A c = a) Failure.IsIo := by
  rintro α s id q r ⟨hs, rfl⟩ hhas hq
  refine (view_turns hs id q).mono ?_ ?_
  · rintro r' s' ⟨-, hr', hturns⟩
    exact ⟨Except.ok.inj (hr'.symm.trans hq), hturns.backed, hturns.array⟩
  · rintro e s' ⟨(hio | ⟨hmissing, -⟩) | ⟨-, he⟩, -⟩
    · exact hio
    · exact absurd hhas hmissing
    · rw [hq] at he
      cases he

/-- Over a device that serves, nothing fails. -/
lemma sees_served {folder : String} {own : Set String} (V : A.Service folder own) (c : CacheId)
    (a : PageArray) :
    Sees c a (fun s => (s.Backed A c ∧ s.array A c = a) ∧ s.Served V c) fun _ => False := by
  rintro α s id q r ⟨⟨hs, rfl⟩, hserved⟩ hhas hq
  refine ((frame_turns hs id).and (frame_served hs hserved id)).mono_error ?_ |>.bind ?_
  · rintro e s' ⟨⟨hio | ⟨hmissing, -⟩, -⟩, hnot, -⟩
    · exact hnot hio
    · exact hmissing hhas
  · rintro f s' ⟨⟨-, -, hbytes, hturns, -⟩, hready⟩
    rw [hbytes, hq]
    exact Ends.of_ok (settle_ok s') ⟨rfl, ⟨hturns.backed, hturns.array⟩, hserved.turns hready hturns⟩

end Session

namespace Tree

open Session

/-! ### The nodes that a lookup goes on from -/

section Descents

variable {ρ κ : Type} [LinearOrder κ] {t : Tree ρ} {key : ρ → κ} {a : PageArray} {row : ρ}
  {id child last x y : PageId} {n : ℕ} {l : List PageId}

/-- A lookup goes on from one node after the other, and comes to a page. -/
inductive Descends (t : Tree ρ) (a : PageArray) (row : ρ) : PageId → List PageId → PageId → Prop
  | here (id : PageId) : Descends t a row id [] id
  | on {id child last : PageId} {l : List PageId} (h : t.Leads a row id child)
      (rest : Descends t a row child l last) : Descends t a row id (id :: l) last

omit [LinearOrder κ] in
lemma Leads.unique (h : t.Leads a row id x) (h' : t.Leads a row id y) : x = y := by
  obtain ⟨-, i, hx⟩ := h
  obtain ⟨-, j, hy⟩ := h'
  rw [hx] at hy
  cases hy
  rfl

omit [LinearOrder κ] in
/-- The last page of a descent is reached from the first one. -/
lemma Descends.reaches (h : t.Descends a row id l last) :
    Relation.ReflTransGen (t.Leads a row) id last := by
  induction h with
  | here id => exact .refl
  | on h _ ih => exact .head h ih

omit [LinearOrder κ] in
/-- A node that a lookup goes on from was come to, and leads on. -/
lemma Descends.of_mem (h : t.Descends a row id l last) (hx : x ∈ l) :
    Relation.ReflTransGen (t.Leads a row) id x ∧ ∃ y, t.Leads a row x y ∧
      Relation.ReflTransGen (t.Leads a row) y last := by
  induction h with
  | here id => cases hx
  | on hlead rest ih =>
      obtain rfl | hx := List.mem_cons.mp hx
      · exact ⟨.refl, _, hlead, rest.reaches⟩
      · obtain ⟨hreach, hrest⟩ := ih hx
        exact ⟨.head hlead hreach, hrest⟩

omit [LinearOrder κ] in
lemma Descends.lt_count (h : t.Descends a row id l last) (hx : x ∈ l) : x.index < a.count := by
  obtain ⟨-, y, hlead, -⟩ := h.of_mem hx
  exact hlead.1.1

omit [LinearOrder κ] in
/-- A lookup that comes to a leaf does not go round. -/
lemma Trail.not_circles (h : t.Trail a row id l) : ¬ Circles (t.Leads a row) id := by
  induction h with
  | leaf _ harrive =>
      intro hround
      obtain ⟨child, ⟨-, i, hchild⟩, -⟩ := hround.step
      rw [harrive] at hchild
      cases hchild
  | inner hhas harrive _ ih =>
      intro hround
      obtain ⟨child, hchild, hrest⟩ := hround.step
      obtain rfl := Leads.unique ⟨hhas, _, harrive⟩ hchild
      exact ih hrest

omit [LinearOrder κ] in
/-- A lookup that goes round comes as far as one likes. -/
lemma exists_descends (h : Circles (t.Leads a row) id) (n : ℕ) :
    ∃ l last, t.Descends a row id l last ∧ l.length = n := by
  induction n generalizing id with
  | zero => exact ⟨[], id, .here id, rfl⟩
  | succ n ih =>
      obtain ⟨child, hlead, hround⟩ := h.step
      obtain ⟨l, last, hrest, hlen⟩ := ih hround
      exact ⟨id :: l, last, .on hlead hrest, congrArg (· + 1) hlen⟩

/-- What a lookup meets from a page on if it does not go round: different nodes, not more than
there are pages, and damage where one of their pages is come to again. -/
structure Bounded (t : Tree ρ) (a : PageArray) (row : ρ) (id : PageId) : Prop where
  apart : ∀ {l last}, t.Descends a row id l last → (l.map PageId.index).Nodup
  length_le : ∀ {l last}, t.Descends a row id l last → l.length ≤ a.count
  length_lt : ∀ {l last}, t.Descends a row id l last → a.Has last.index →
    last.index ∉ l.map PageId.index → l.length < a.count
  refused : ∀ {l last}, t.Descends a row id l last → last.index ∈ l.map PageId.index →
    ∃ damage, t.arrive row last (a.page last.index) = .error (.error (.corrupted damage))

variable (hR : t.rows.Supported key) (hpages : ∀ i, (a.page i).Usual)
include hR hpages

/-- Unless the links lead in a circle, a lookup goes on from different pages. -/
lemma Descends.apart (h : t.Descends a row id l last) (hround : ¬ Circles (t.Leads a row) id) :
    (l.map PageId.index).Nodup := by
  induction h with
  | here id => exact List.nodup_nil
  | @on id child last l hlead rest ih =>
      refine List.nodup_cons.mpr ⟨fun hin => hround ?_, ih fun h => hround (h.of_reach (.single hlead))⟩
      obtain ⟨x, hx, hindex⟩ := List.mem_map.mp hin
      obtain ⟨hreach, y, ⟨-, i', harrive'⟩, -⟩ := rest.of_mem hx
      obtain ⟨i, harrive⟩ := hlead.2
      obtain rfl := eq_of_arrive hR hpages harrive' harrive hindex
      exact ⟨x, .refl, .head' hlead hreach⟩

/-- Unless the links lead in a circle, a page that was a node on the way is refused when it
is come to again. -/
lemma Descends.refused (h : t.Descends a row id l last) (hround : ¬ Circles (t.Leads a row) id)
    (hin : last.index ∈ l.map PageId.index) :
    ∃ damage, t.arrive row last (a.page last.index) = .error (.error (.corrupted damage)) := by
  obtain ⟨x, hx, hindex⟩ := List.mem_map.mp hin
  obtain ⟨hreach, y, hlead, hback⟩ := h.of_mem hx
  have hne : x ≠ last := fun heq => hround ⟨x, hreach, .head' hlead (heq ▸ hback)⟩
  -- the page says that it is the node it was before
  obtain ⟨header, hheader⟩ := (hpages last.index).exists_header
  obtain ⟨-, i, harrive⟩ := hlead
  have hself := self_of_arrive hR (hpages _) harrive
  rw [hindex, (Node.of_header hheader).2.2.2] at hself
  have hunfit : t.Unfit last (a.page last.index) :=
    ⟨header, hheader, .inr (.inl (Except.ok.inj hself ▸ hne))⟩
  obtain ⟨_, ⟨damage, rfl⟩, hrefused⟩ := arrive_of_unfit hR.lawful hunfit row
  exact ⟨damage, hrefused⟩

omit hR hpages [LinearOrder κ] in
/-- Different pages are not more than there are. -/
lemma length_le_count {is : List ℕ} (hapart : is.Nodup) (hlt : ∀ i ∈ is, i < n) : is.length ≤ n := by
  have hsub : is ⊆ List.range n := fun i hi => List.mem_range.mpr (hlt i hi)
  simpa using (List.subperm_of_subset hapart hsub).length_le

/-- A search that does not go round is one through different pages. -/
lemma bounded_of_not_circles (hround : ¬ Circles (t.Leads a row) id) : t.Bounded a row id where
  apart h := h.apart hR hpages hround
  length_le h := by
    have hle := length_le_count (n := a.count) (h.apart hR hpages hround) fun i hi => by
      obtain ⟨x, hx, rfl⟩ := List.mem_map.mp hi
      exact h.lt_count hx
    rwa [List.length_map] at hle
  length_lt {l last} h hhas hnew := by
    have hle := length_le_count (n := a.count)
      (List.nodup_cons.mpr ⟨hnew, h.apart hR hpages hround⟩) fun i hi => by
        obtain rfl | hi := List.mem_cons.mp hi
        · exact hhas.1
        · obtain ⟨x, hx, rfl⟩ := List.mem_map.mp hi
          exact h.lt_count hx
    rwa [List.length_cons, List.length_map] at hle
  refused h hin := h.refused hR hpages hround hin

end Descents

/-! ### Lookups of any length -/

section Lookups

variable {ρ κ δ : Type} [LinearOrder κ] [Device δ] {A : Device.Account δ} {t : Tree ρ} {key : ρ → κ}
  {a : PageArray} {s s₁ : Session δ} {row : ρ} {id : PageId} {n m : ℕ} {k : CacheFile}

/-- A lookup that goes at most `n` pages far. -/
def findWithin (t : Tree ρ) (row : ρ) (n : ℕ) : SessionM δ (Option ρ) := do
  t.findFrom row n (← t.root)

omit [LinearOrder κ] in
/-- A lookup that comes to its end comes to the same end if it may go further. -/
lemma findFrom_succ (h : (t.findFrom row n id s).1 ≠ .error .endless) :
    t.findFrom row (n + 1) id s = t.findFrom row n id s := by
  induction n generalizing id s with
  | zero => exact absurd rfl h
  | succ n ih =>
      rcases hview : view t.cache id (t.arrive row id) s with ⟨e | arrival, s₁⟩
      · rw [findFrom, findFrom, run_bind_error hview, run_bind_error hview]
      · rw [findFrom, run_bind_ok hview] at h ⊢
        rw [findFrom, run_bind_ok hview]
        cases arrival with
        | leaf at_ => cases at_ <;> rfl
        | inner i child => exact ih h

omit [LinearOrder κ] in
/-- A search that ends needs no more steps than it took. -/
lemma findFrom_eq (h : (t.findFrom row n id s).1 ≠ .error .endless) (hle : n ≤ m) :
    t.findFrom row m id s = t.findFrom row n id s := by
  induction m, hle using Nat.le_induction with
  | base => rfl
  | succ m hle ih => rw [findFrom_succ (by rwa [ih]), ih]

omit [LinearOrder κ] in
/-- A page is asked in the same way whether or not the cache was opened before. -/
lemma view_of_cacheFile {α : Type} {c : CacheId} (h : cacheFile c s = (.ok k, s₁))
    (hk : s₁.store.caches[c]? = some k) (id : PageId) (q : Page → Except Failure α) :
    view c id q s₁ = view c id q s := by
  refine run_bind_of_eq ?_ _
  rw [frame, run_bind_ok h, run_bind_ok (cacheFile_open hk)]

omit [LinearOrder κ] in
/-- A lookup goes one page further than there are pages in the cache. -/
lemma find?_eq (hs : s.Backed A t.cache) (row : ρ) :
    t.find? row s = t.findWithin row ((s.array A t.cache).count + 1) s := by
  have hopen := cacheFile_turns hs
  rcases hrun : cacheFile t.cache s with ⟨e | k, s₁⟩
  · have hreach : t.reach s = (.error e, s₁) := run_bind_error (run_bind_error hrun _) _
    have hroot : t.root s = (.error e, s₁) := run_bind_error (run_bind_error hrun _) _
    rw [find?, findWithin, run_bind_error hreach, run_bind_error hroot]
  · obtain ⟨hk, hturns⟩ := hopen.ok hrun
    have hcount : (s.array A t.cache).count = k.next := by
      rw [← hturns.array, array_open hk]
      rfl
    have hreach : t.reach s = (.ok (k.next + 1), s₁) :=
      (run_bind_ok (run_bind_ok hrun _) _).trans rfl
    rw [find?, run_bind_ok hreach, findWithin, hcount]
    exact run_bind_of_eq (view_of_cacheFile hrun hk .metaPage MetaPage.root) _

/-- Unless the links lead in a circle, a lookup that may go further than there are pages comes
to the same end however far it may go. -/
lemma findWithin_eq (hR : t.rows.Supported key) (hs : s.Regular A t.cache)
    (hround : ¬ Loops (t.Leads (s.array A t.cache) row) (s.array A t.cache))
    (hn : (s.array A t.cache).count < n) : t.findWithin row n s = t.find? row s := by
  rw [find?_eq hs.toBacked, findWithin, findWithin]
  refine run_bind_congr fun root s₁ hrun => ?_
  obtain ⟨hroot, hturns⟩ := (root_safe hs).ok hrun
  refine findFrom_eq (fun hendless => ?_) hn
  have hguarded : Guarded (t.findFrom row ((s.array A t.cache).count + 1) root s₁).1 _ :=
    Guarded.of_ends (findFrom_safe hR (hturns.regular hs) _ root)
  obtain ⟨e, he⟩ | ⟨-, hchain⟩ := hguarded _ hendless
  · cases he
  · rw [hturns.array] at hchain
    exact hround ⟨root, hroot, circles_of_leads hR hs.page_usual hchain (Nat.lt_succ_self _)⟩

omit [LinearOrder κ] in
/-- A lookup from a page where the links lead in a circle goes round for ever, as long as it
sees the pages. -/
lemma findFrom_circles {P : Session δ → Prop} {F : Failure → Prop} (hsees : Sees t.cache a P F)
    (hs : P s) (hround : Circles (t.Leads a row) id) (n : ℕ) :
    Ends (t.findFrom row n id) s (fun _ _ => False) fun e _ => e = .endless ∨ F e := by
  induction n generalizing s id with
  | zero => exact Ends.of_error rfl (.inl rfl)
  | succ n ih =>
      obtain ⟨child, ⟨hhas, i, harrive⟩, hrest⟩ := hround.step
      refine ((hsees hs hhas harrive).mono_error fun _ _ h => .inr h).bind ?_
      rintro _ s₁ ⟨rfl, hs₁⟩
      exact ih hs₁ hrest

omit [LinearOrder κ] in
/-- A search that goes round uses up whatever steps it is given. -/
lemma findWithin_circles {P : Session δ → Prop} {F : Failure → Prop} (hsees : Sees t.cache a P F)
    (hs : P s) (hfirst : a.Has 0) (hround : Loops (t.Leads a row) a) (n : ℕ) :
    ∃ e, (t.findWithin row n s).1 = .error e ∧ (e = .endless ∨ F e) := by
  obtain ⟨root, hroot, hround⟩ := hround
  have hends : Ends (t.findWithin row n) s (fun _ _ => False) fun e _ => e = .endless ∨ F e := by
    have hlook := hsees hs (show a.Has PageId.metaPage.index from hfirst) hroot
    refine (hlook.mono_error fun _ _ h => .inr h).bind ?_
    rintro _ s₁ ⟨rfl, hs₁⟩
    exact findFrom_circles hsees hs₁ hround n
  rcases hrun : t.findWithin row n s with ⟨e | r, s₁⟩
  · exact ⟨e, rfl, hends.error hrun⟩
  · exact (hends.ok hrun).elim

end Lookups

/-! ### Two trees of numbers -/

/-- What was seen in a page is in the array. -/
lemma of_view {δ α : Type} [Device δ] {A : Device.Account δ} {c : CacheId} {s : Session δ} {id : PageId}
    {q : Page → Except Failure α} {r : α} (hs : s.Backed A c) (h : (view c id q s).1 = .ok r) :
    (s.array A c).Has id.index ∧ q ((s.array A c).page id.index) = .ok r := by
  obtain ⟨r', hrun⟩ := run_of_isOk (show (view c id q s).1.isOk = true by rw [h]; rfl)
  obtain ⟨hhas, hq, -⟩ := (view_turns hs id q).ok hrun
  rw [hrun] at h
  obtain rfl := Except.ok.inj h
  exact ⟨hhas, hq⟩

/-- A tree whose root is an inner node without keys, and leads to itself. -/
def selfLinked : SessionM MemoryDisk Unit := do
  numbers.start (some true)
  let root ← numbers.root
  edit numbers.cache root (Node.init numbers.rows.inner root)
  edit numbers.cache root (Node.setLink numbers.rows.inner 0 root)

lemma selfLinked_within : Within numbers.cache selfLinked :=
  (start_within _).bind fun _ => (root_within _).bind fun root =>
    (Within.edit root (Node.init_steady _ root)).bind fun _ => .edit root (Node.setLink_steady _ 0 root)

/-- A tree of three numbers, with a root and two leaves. -/
def threeNumbers : SessionM MemoryDisk Unit := do
  numbers.start (some true)
  discard <| numbers.put 7
  discard <| numbers.put 3
  discard <| numbers.put 5

lemma threeNumbers_within : Within numbers.cache threeNumbers :=
  (start_within _).bind fun _ => ((put_within numbers_supported.steady 7).map _).bind fun _ =>
    ((put_within numbers_supported.steady 3).map _).bind fun _ =>
      (put_within numbers_supported.steady 5).map _

/-! ### The two ways of a lookup -/

/-- Whatever is in the pages of a cache, a lookup has one of two ends. Unless the links that it
follows from the root lead in a circle, it is answered or refused, and more pages than the cache
has are never looked at: it goes on from different nodes, and a page that it comes to again is
reported as damaged. If they do, it goes on from node to node as far as one likes and is never
answered; nothing but the device can end it. -/
theorem find_ends_or_circles {ρ κ δ : Type} [LinearOrder κ] [Device δ] {A : Device.Account δ} {t : Tree ρ}
    {key : ρ → κ} {s : Session δ} (hR : t.rows.Supported key) (hs : s.Regular A t.cache) (row : ρ) :
    (¬ Loops (t.Leads (s.array A t.cache) row) (s.array A t.cache) →
      Guarded (t.find? row s).1 (fun _ => False) ∧
      (∀ n, (s.array A t.cache).count < n → t.findWithin row n s = t.find? row s) ∧
      ∀ root, MetaPage.root ((s.array A t.cache).page 0) = .ok root →
        t.Bounded (s.array A t.cache) row root) ∧
    ((s.array A t.cache).Has 0 → Loops (t.Leads (s.array A t.cache) row) (s.array A t.cache) →
      ∀ n, (∃ e, (t.findWithin row n s).1 = .error e ∧ (e = .endless ∨ e.IsIo)) ∧
        ∃ root l last, MetaPage.root ((s.array A t.cache).page 0) = .ok root ∧
          t.Descends (s.array A t.cache) row root l last ∧ l.length = n) := by
  constructor
  · intro hround
    refine ⟨fun e he => ?_, fun n hn => findWithin_eq hR hs hround hn, fun root hroot => ?_⟩
    · exact (Guarded.of_ends (find_safe hR hs row) e he).imp_right fun h => hround h.2
    · exact bounded_of_not_circles hR hs.page_usual fun h => hround ⟨root, hroot, h⟩
  · intro hfirst hround n
    refine ⟨findWithin_circles (sees_backed A t.cache _) ⟨hs.toBacked, rfl⟩ hfirst hround n, ?_⟩
    obtain ⟨root, hroot, hround⟩ := hround
    obtain ⟨l, last, hdescends, hlen⟩ := exists_descends hround n
    exact ⟨root, l, last, hroot, hdescends, hlen⟩

/-- In the tree of three numbers a lookup is answered, however far it may go. -/
theorem find_ends_of_threeNumbers :
    ∃ s : Session MemoryDisk, s.Regular MemoryDisk.account numbers.cache ∧
      ¬ Loops (numbers.Leads (s.array MemoryDisk.account numbers.cache) 7)
        (s.array MemoryDisk.account numbers.cache) ∧
      (numbers.find? 7 s).1 = .ok (some 7) ∧
      ∀ n, (s.array MemoryDisk.account numbers.cache).count < n →
        (numbers.findWithin 7 n s).1 = .ok (some 7) := by
  obtain ⟨s, hs⟩ : ∃ s, s = (threeNumbers .blank).2 := ⟨_, rfl⟩
  have hruns : (numbers.find? 7 s).1 = .ok (some 7) ∧
      (view numbers.cache .metaPage MetaPage.root s).1 = .ok (numbers.rows.nodeId 3) ∧
      (view numbers.cache (numbers.rows.nodeId 3) (numbers.arrive 7 (numbers.rows.nodeId 3)) s).1
        = .ok (.inner 1 (numbers.rows.nodeId 2)) ∧
      (view numbers.cache (numbers.rows.nodeId 2) (numbers.arrive 7 (numbers.rows.nodeId 2)) s).1
        = .ok (.leaf (.found 0)) := by
    rw [hs]
    decide +kernel
  obtain ⟨hfound, hroot, hnode, hleaf⟩ := hruns
  have hregular : s.Regular MemoryDisk.account numbers.cache :=
    hs ▸ threeNumbers_within.regular blank_regular
  obtain ⟨-, hroot⟩ := of_view hregular.toBacked hroot
  obtain ⟨hhas, harrive⟩ := of_view hregular.toBacked hnode
  obtain ⟨hhas', harrive'⟩ := of_view hregular.toBacked hleaf
  -- The search comes to a leaf, and a search that does has nowhere to go round.
  have hround : ¬ Loops (numbers.Leads (s.array MemoryDisk.account numbers.cache) 7)
      (s.array MemoryDisk.account numbers.cache) := by
    rintro ⟨root, hroot', hround⟩
    obtain rfl := Except.ok.inj (hroot.symm.trans hroot')
    exact (Trail.inner hhas harrive (.leaf hhas' harrive')).not_circles hround
  refine ⟨s, hregular, hround, hfound, fun n hn => ?_⟩
  obtain ⟨-, hfurther, -⟩ := (find_ends_or_circles numbers_supported hregular 7).1 hround
  rw [hfurther n hn, hfound]

/-- In the tree of one node, in a cache of two pages, a lookup comes from the root to the root,
and never to an end. -/
theorem endless_of_selfLinked :
    ∃ s : Session MemoryDisk, s = (selfLinked .blank).2 ∧ s.Regular MemoryDisk.account numbers.cache ∧
      (s.array MemoryDisk.account numbers.cache).count = 2 ∧
      (∃ root, MetaPage.root ((s.array MemoryDisk.account numbers.cache).page 0) = .ok root ∧
        numbers.Descends (s.array MemoryDisk.account numbers.cache) 1 root [root] root) ∧
      ∀ n, (numbers.findWithin 1 n s).1 = .error .endless := by
  obtain ⟨s, hs⟩ : ∃ s, s = (selfLinked .blank).2 := ⟨_, rfl⟩
  -- What the pages of this one session say; all else follows from it.
  have hruns : s.store.options.createIfMissing = true ∧ (pageCount numbers.cache s).1 = .ok 2 ∧
      (view numbers.cache .metaPage MetaPage.root s).1 = .ok (numbers.rows.nodeId 1) ∧
      (view numbers.cache (numbers.rows.nodeId 1) (numbers.arrive 1 (numbers.rows.nodeId 1)) s).1
        = .ok (.inner 0 (numbers.rows.nodeId 1)) := by
    rw [hs]
    decide +kernel
  obtain ⟨hcreate, hcount, hroot, hnode⟩ := hruns
  have hregular : s.Regular MemoryDisk.account numbers.cache :=
    hs ▸ selfLinked_within.regular blank_regular
  obtain ⟨hfirst, hroot⟩ := of_view hregular.toBacked hroot
  obtain ⟨hhas, harrive⟩ := of_view hregular.toBacked hnode
  have hlead : numbers.Leads (s.array MemoryDisk.account numbers.cache) 1 (numbers.rows.nodeId 1)
      (numbers.rows.nodeId 1) := ⟨hhas, 0, harrive⟩
  refine ⟨s, hs, hregular, ?_, ⟨_, hroot, .on hlead (.here _)⟩, fun n => ?_⟩
  · obtain ⟨k, hrun⟩ := run_of_isOk (show (pageCount numbers.cache s).1.isOk = true by rw [hcount]; rfl)
    rw [hrun] at hcount
    exact ((pageCount_safe hregular).ok hrun).1.symm.trans (Except.ok.inj hcount)
  · have hserved : s.Served (MemoryDisk.service "" .univ) numbers.cache := ⟨trivial, trivial, .inl hcreate⟩
    obtain ⟨e, he, rfl | hnone⟩ := findWithin_circles (sees_served (MemoryDisk.service "" .univ) numbers.cache _)
      ⟨⟨hregular.toBacked, rfl⟩, hserved⟩ hfirst ⟨_, hroot, _, .refl, .single hlead⟩ n
    · exact he
    · exact hnone.elim

end Tree

end PageCatalog
