import Mathlib.Tactic
import PageCatalog.Proofs.Store.Calls
import PageCatalog.Proofs.Tree.Damaged
import PageCatalog.Proofs.Tree.Lookup
import PageCatalog.Proofs.Tree.Within

/-!
Trees over damaged pages.

Whatever is in the pages of a cache, a tree over them never reads or writes outside a page: a
call of it succeeds, or its caller is told why not, unless the links that it follows lead in a
circle. The pages that a search goes through are different ones, for a page that comes twice
comes for ever; so each of them is still what it was when the search comes back to it.

* `Chain`, `Circles`, `Chain.circles`: more links than pages lead in a circle.
* `Tree.Trail`, `Trail.apart`: the pages that a search goes through.
* `Session.Alters`: pages that are changed, while the others stay as they are.
* `Tree.below_safe`: what is done below a node leaves the node as it was met.
* `Tree.putFrom_safe`, `Tree.removeFrom_safe`: what a change leaves of the pages that were there.
* `Tree.collapseRoot_safe`: each round frees a page, so the rounds come to an end.
* `Tree.answered_or_refused`: every call.
-/

namespace PageCatalog

/-! ### Links that lead in a circle -/

/-- So many links can be followed one after the other. -/
def Chain (R : PageId → PageId → Prop) : ℕ → PageId → Prop
  | 0, _ => True
  | n + 1, id => ∃ child, R id child ∧ Chain R n child

/-- Links lead to a page from which they lead back to it. -/
def Circles (R : PageId → PageId → Prop) (id : PageId) : Prop :=
  ∃ x, Relation.ReflTransGen R id x ∧ Relation.TransGen R x x

section Chain

variable {R : PageId → PageId → Prop} {id : PageId} {n N : ℕ}

/-- The links of a chain, one after the other. -/
lemma Chain.exists_path (h : Chain R n id) :
    ∃ f : ℕ → PageId, f 0 = id ∧ ∀ k < n, R (f k) (f (k + 1)) := by
  induction n generalizing id with
  | zero => exact ⟨fun _ => id, rfl, fun k hk => absurd hk (Nat.not_lt_zero k)⟩
  | succ n ih =>
      obtain ⟨child, hlink, hrest⟩ := h
      obtain ⟨f, hf, hpath⟩ := ih hrest
      refine ⟨fun k => k.casesOn id f, rfl, fun k hk => ?_⟩
      cases k with
      | zero =>
          rw [← hf] at hlink
          exact hlink
      | succ k => exact hpath k (Nat.lt_of_succ_lt_succ hk)

/-- More links than there are pages lead in a circle, for a page comes twice among them. -/
lemma Chain.circles (h : Chain R n id) (hn : N < n) (hlt : ∀ x y, R x y → x.index < N)
    (hone : ∀ x y x' y', R x y → R x' y' → x.index = x'.index → x = x') : Circles R id := by
  obtain ⟨f, hf, hpath⟩ := h.exists_path
  -- There are more places on the path than indexes of pages, so two of them share one.
  obtain ⟨i, hi, j, hj, hne, heq⟩ := Finset.exists_ne_map_eq_of_card_lt_of_maps_to
    (s := Finset.range n) (t := Finset.range N) (f := fun k => (f k).index)
    (by rwa [Finset.card_range, Finset.card_range])
    fun k hk => Finset.mem_coe.mpr (Finset.mem_range.mpr
      (hlt _ _ (hpath k (Finset.mem_range.mp (Finset.mem_coe.mp hk)))))
  rw [Finset.mem_range] at hi hj
  -- The two places play the same part; the earlier one is named `i`.
  wlog hij : i < j generalizing i j
  · exact this j hj i hi hne.symm heq.symm (by omega)
  have hsame : f i = f j := hone _ _ _ _ (hpath i hi) (hpath j hj) heq
  have hrel : ∀ k < n, R (f k) (f (Order.succ k)) := hpath
  refine ⟨f i, ?_, ?_⟩
  · rw [← hf]
    exact (reflTransGen_of_succ_of_le (Function.onFun R f) (fun k hk => hrel k (hk.2.trans hi))
      (Nat.zero_le i)).lift f fun _ _ h => h
  · have hcircle := (transGen_of_succ_of_lt (Function.onFun R f) (fun k hk => hrel k (hk.2.trans hj))
      hij).lift f fun _ _ h => h
    rwa [Function.onFun, ← hsame] at hcircle

end Chain

/-! ### Calls for pages with anything in them -/

namespace PageArray

variable {a : PageArray} {i j : ℕ} {p : Page}

@[simp] lemma count_set (a : PageArray) (i : ℕ) (p : Page) : (a.set i p).count = a.count := rfl

@[simp] lemma freed_set (a : PageArray) (i : ℕ) (p : Page) : (a.set i p).freed = a.freed := rfl

@[simp] lemma page_set_self (a : PageArray) (i : ℕ) (p : Page) : (a.set i p).page i = p := by
  simp [set]

/-- A page that is put into an array leaves the other ones. -/
lemma page_set_of_ne (h : j ≠ i) : (a.set i p).page j = a.page j := by
  simp [set, h]

/-- Putting in the page that is there already. -/
lemma set_page (a : PageArray) (i : ℕ) : a.set i (a.page i) = a := by
  rw [set, Function.update_eq_self]

end PageArray

namespace Session

variable {δ α : Type} [Device δ] {A : Device.Account δ} {c : CacheId} {s s' s'' : Session δ}
  {a : PageArray} {T T' : List ℕ} {id : PageId} {p q : Page} {i : ℕ} {F : Failure → Prop}

/-- A page that is refused is refused with an error. -/
lemma Refuses.isRefusal {e : Failure} (h : Refuses a c id e) : e.IsRefusal := by
  obtain ⟨io, rfl⟩ | ⟨-, rfl⟩ := h
  · exact ⟨_, rfl⟩
  · exact ⟨_, rfl⟩

/-- A session that goes with the file of a cache, with pages of a size that pages can have. -/
structure Regular (A : Device.Account δ) (c : CacheId) (s : Session δ) : Prop extends s.Backed A c where
  usual : 512 ≤ s.size ∧ s.size ≤ 65536

/-- A cache that turns into another array stays one with pages of usual size. -/
lemma Turns.regular (h : s.Turns A c a s') (hs : s.Regular A c) : s'.Regular A c :=
  ⟨h.backed, h.size ▸ hs.usual⟩

/-- Every page of a cache has the session's page size, be it in memory or only in the file. -/
lemma Regular.page_size (hs : s.Regular A c) (i : ℕ) : ((s.array A c).page i).size = s.size := by
  cases hk : s.store.caches[c]? with
  | none => rw [array_closed hk, PageArray.ofFile, Bytes.size_pageAt]
  | some k =>
      rw [array_open hk]
      cases hf : k.frames[i]? with
      | none => rw [CacheFile.page_of_none hf, Bytes.size_pageAt]
      | some f => rw [CacheFile.page_of_frame hf, (hs.opened hk).frame_size hf]

/-- Every page of a cache has a size that pages can have. -/
lemma Regular.page_usual (hs : s.Regular A c) (i : ℕ) : ((s.array A c).page i).Usual := by
  rw [Page.Usual, hs.page_size]
  exact hs.usual

/-- A question that every page settles. -/
lemma view_safe (hs : s.Regular A c) (id : PageId) {f : Page → Except Failure α}
    (hf : Settled (f ((s.array A c).page id.index))) :
    Ends (view c id f) s
      (fun r s' => (s.array A c).Has id.index ∧ f ((s.array A c).page id.index) = .ok r ∧
        s.Turns A c (s.array A c) s')
      (fun e _ => e.IsRefusal) :=
  (view_turns hs.toBacked id f).mono_error fun e _ h => h.1.elim Refuses.isRefusal fun h => hf e h.2

/-- A change that ends well on every page. -/
lemma edit_safe (hs : s.Regular A c) (id : PageId) {m : PageM α} (hm : m.Steady) {Q : α → Page → Prop}
    (hend : Ends m ((s.array A c).page id.index) Q fun e _ => F e) (hF : ∀ e : Failure, e.IsRefusal → F e) :
    Ends (edit c id m) s
      (fun r s' => (s.array A c).Has id.index ∧ ∃ q, Q r q ∧
        s.Turns A c ((s.array A c).set id.index q) s')
      (fun e _ => F e) := by
  refine (edit_turns hs.toBacked id hm).mono ?_ ?_
  · rintro r s' ⟨hhas, hrun, hturns⟩
    exact ⟨hhas, _, hend.ok (Prod.ext hrun rfl), hturns⟩
  · rintro e s' (⟨hrefuses, -⟩ | ⟨-, hrun, -⟩)
    · exact hF e hrefuses.isRefusal
    · exact hend.error (Prod.ext hrun rfl)

/-- A look at a page leaves all pages as they are. -/
lemma edit_look_safe (hs : s.Regular A c) (id : PageId) {f : Page → Except Failure α}
    (hf : Settled (f ((s.array A c).page id.index))) :
    Ends (edit c id (.look f)) s
      (fun r s' => (s.array A c).Has id.index ∧ f ((s.array A c).page id.index) = .ok r ∧
        s.Turns A c (s.array A c) s')
      (fun e _ => e.IsRefusal) := by
  refine (edit_turns hs.toBacked id (PageM.steady_look f)).mono ?_ ?_
  · rintro r s' ⟨hhas, hrun, hturns⟩
    exact ⟨hhas, hrun, by rwa [PageM.look, PageArray.set_page] at hturns⟩
  · rintro e s' (⟨hrefuses, -⟩ | ⟨-, hrun, -⟩)
    · exact hrefuses.isRefusal
    · exact hf e hrun

/-- A page is allocated behind the others, or there is no room for it. -/
lemma allocate_safe (hs : s.Regular A c) (partition : UInt16) (space : Space) :
    Ends (allocate c partition space) s
      (fun id s' => id.index = (s.array A c).count ∧ s.Turns A c ((s.array A c).push s.size) s')
      (fun e _ => e.IsRefusal) := by
  refine (allocate_turns hs.toBacked partition space).mono ?_ ?_
  · rintro id s' ⟨hlt, rfl, hturns⟩
    refine ⟨?_, hturns⟩
    rw [CacheFile.indexLimit] at hlt
    rw [PageId.index_make, Nat.mod_eq_of_lt (by omega)]
  · rintro e s' ⟨⟨io, rfl⟩ | ⟨-, rfl⟩, -⟩
    · exact ⟨_, rfl⟩
    · exact ⟨_, rfl⟩

/-- A page is freed that is there and is not the first, or the call is refused. -/
lemma free_safe (hs : s.Regular A c) (id : PageId) :
    Ends (free c id) s
      (fun _ s' => id.index ≠ 0 ∧ (s.array A c).Has id.index ∧
        s.Turns A c ((s.array A c).release id.index s.size) s')
      (fun e _ => e.IsRefusal) := by
  refine (free_turns hs.toBacked id).mono_error ?_
  rintro e s' ⟨⟨-, rfl⟩ | ⟨-, hrefuses⟩, -⟩
  · exact ⟨_, rfl⟩
  · exact hrefuses.isRefusal

/-- The number of pages is told, or the file cannot be opened. -/
lemma pageCount_safe (hs : s.Regular A c) :
    Ends (pageCount c) s (fun n s' => n = (s.array A c).count ∧ s.Turns A c (s.array A c) s')
      (fun e _ => e.IsRefusal) := by
  refine Ends.map ((cacheFile_turns hs.toBacked).mono ?_ ?_)
  · rintro k s' ⟨hk, hturns⟩
    exact ⟨by rw [← hturns.array, array_open hk, CacheFile.array], hturns⟩
  · rintro e s' ⟨⟨io, rfl⟩, -⟩
    exact ⟨_, rfl⟩

/-- Calls for the pages of a cache keep it so. -/
lemma Within.regular {m : SessionM δ α} (hm : Within c m) (hs : s.Regular A c) : (m s).2.Regular A c := by
  obtain ⟨a, hturns, -⟩ := hm.runs hs.toBacked
  exact hturns.regular hs

/-- Of the pages that a cache had, only those at the given indexes may have changed. The first
page still says the same of itself. -/
structure Alters (A : Device.Account δ) (c : CacheId) (T : List ℕ) (s s' : Session δ) : Prop where
  regular : s'.Regular A c
  size : s'.size = s.size
  count : (s.array A c).count ≤ (s'.array A c).count
  same : ∀ i < (s.array A c).count, i ∉ T → (s'.array A c).page i = (s.array A c).page i
  first : 0 < (s.array A c).count → ((s.array A c).page 0).KeepsSelf ((s'.array A c).page 0)

namespace Alters

/-- Nothing has changed. -/
lemma refl (hs : s.Regular A c) (T : List ℕ) : s.Alters A c T s :=
  ⟨hs, rfl, le_rfl, fun _ _ _ => rfl, fun _ => .refl _⟩

/-- More pages may have changed than did. -/
lemma mono (h : s.Alters A c T s') (hT : T ⊆ T') : s.Alters A c T' s' :=
  ⟨h.regular, h.size, h.count, fun i hi hout => h.same i hi fun hin => hout (hT hin), h.first⟩

/-- Two changes of the same pages one after the other. -/
lemma trans (h : s.Alters A c T s') (h' : s'.Alters A c T s'') : s.Alters A c T s'' where
  regular := h'.regular
  size := h'.size.trans h.size
  count := h.count.trans h'.count
  same i hi hout := (h'.same i (hi.trans_le h.count) hout).trans (h.same i hi hout)
  first hpos := (h.first hpos).trans (h'.first (hpos.trans_le h.count))

/-- The cache becomes another array, which differs where it may. -/
lemma turn (h : s.Alters A c T s') (h' : s'.Turns A c a s'') (hcount : (s'.array A c).count ≤ a.count)
    (hpage : ∀ i < (s.array A c).count, a.page i = (s'.array A c).page i ∨
      i ∈ T ∧ (i = 0 → ((s'.array A c).page i).KeepsSelf (a.page i))) : s.Alters A c T s'' where
  regular := h'.regular h.regular
  size := h'.size.trans h.size
  count := by
    rw [h'.array]
    exact h.count.trans hcount
  same i hi hout := by
    rw [h'.array]
    exact ((hpage i hi).resolve_right fun hin => hout hin.1).trans (h.same i hi hout)
  first hpos := by
    rw [h'.array]
    obtain heq | ⟨-, hkeeps⟩ := hpage 0 hpos
    · exact heq ▸ h.first hpos
    · exact (h.first hpos).trans (hkeeps rfl)

/-- A call that leaves the array as it is changes nothing more. -/
lemma stay (h : s.Alters A c T s') (h' : s'.Turns A c (s'.array A c) s'') : s.Alters A c T s'' :=
  h.turn h' le_rfl fun _ _ => .inl rfl

/-- A page is written that may change; the first one keeps its own id, if it is that. -/
lemma set (h : s.Alters A c T s') (h' : s'.Turns A c ((s'.array A c).set i q) s'')
    (hi : i < (s.array A c).count → i ∈ T ∧ ((s'.array A c).page i).KeepsSelf q) :
    s.Alters A c T s'' := by
  refine h.turn h' le_rfl fun j hj => ?_
  by_cases hij : j = i
  · subst hij
    exact .inr ⟨(hi hj).1, fun _ => (PageArray.page_set_self _ j q).symm ▸ (hi hj).2⟩
  · exact .inl (PageArray.page_set_of_ne hij)

/-- A page behind all that were there is none of those. -/
lemma push (h : s.Alters A c T s') {size : ℕ} (h' : s'.Turns A c ((s'.array A c).push size) s'') :
    s.Alters A c T s'' :=
  h.turn h' (Nat.le_succ _) fun _ hj => .inl (Function.update_of_ne (hj.trans_le h.count).ne _ _)

/-- A page is freed that may change and is not the first. -/
lemma release (h : s.Alters A c T s') {size : ℕ} (h' : s'.Turns A c ((s'.array A c).release i size) s'')
    (hi : i ∈ T) (hfirst : i ≠ 0) : s.Alters A c T s'' := by
  refine h.turn h' le_rfl fun j hj => ?_
  by_cases hij : j = i
  · subst hij
    exact .inr ⟨hi, fun hzero => absurd hzero hfirst⟩
  · exact .inl (Function.update_of_ne hij _ _)

end Alters

end Session

/-! ### The pages that a search goes through -/

namespace Tree

open Session

section Trails

variable {ρ κ : Type} [LinearOrder κ] {t : Tree ρ} {key : ρ → κ} {a : PageArray} {row : ρ} {p : Page}
  {id child : PageId} {i n : ℕ} {l l' : List PageId}

/-- A search for a row goes on from a page to another one. -/
def Leads (t : Tree ρ) (a : PageArray) (row : ρ) (id child : PageId) : Prop :=
  a.Has id.index ∧ ∃ i, t.arrive row id (a.page id.index) = .ok (.inner i child)

/-- A walk goes on from a page to another one. -/
def Links (t : Tree ρ) (a : PageArray) (id child : PageId) : Prop :=
  a.Has id.index ∧ ∃ children, t.content id (a.page id.index) = .ok (.inner children) ∧ child ∈ children

/-- The pages that a search goes through, from a page to a leaf. -/
inductive Trail (t : Tree ρ) (a : PageArray) (row : ρ) : PageId → List PageId → Prop
  | leaf {id : PageId} {at_ : Position} (hhas : a.Has id.index)
      (harrive : t.arrive row id (a.page id.index) = .ok (.leaf at_)) : Trail t a row id [id]
  | inner {id child : PageId} {i : ℕ} {l : List PageId} (hhas : a.Has id.index)
      (harrive : t.arrive row id (a.page id.index) = .ok (.inner i child)) (rest : Trail t a row child l) :
      Trail t a row id (id :: l)

/-- The page that a search begins with is there. -/
lemma Trail.has (h : t.Trail a row id l) : a.Has id.index := by
  cases h with
  | leaf hhas _ => exact hhas
  | inner hhas _ _ => exact hhas

/-- The page that a search begins with is met as a node. -/
lemma Trail.exists_arrive (h : t.Trail a row id l) :
    ∃ arrival, t.arrive row id (a.page id.index) = .ok arrival := by
  cases h with
  | leaf _ harrive => exact ⟨_, harrive⟩
  | inner _ harrive _ => exact ⟨_, harrive⟩

/-- A search goes through the page that it begins with. -/
lemma Trail.head_mem (h : t.Trail a row id l) : id ∈ l := by
  cases h with
  | leaf _ _ => exact List.mem_singleton_self id
  | inner _ _ _ => exact List.mem_cons_self

/-- What a page is met as decides where the search goes from it. -/
lemma Trail.unique (h : t.Trail a row id l) (h' : t.Trail a row id l') : l = l' := by
  induction h generalizing l' with
  | leaf _ harrive =>
      cases h' with
      | leaf _ _ => rfl
      | inner _ harrive' _ =>
          rw [harrive] at harrive'
          cases harrive'
  | inner _ harrive _ ih =>
      cases h' with
      | leaf _ harrive' =>
          rw [harrive] at harrive'
          cases harrive'
      | inner _ harrive' rest =>
          rw [harrive] at harrive'
          cases harrive'
          rw [ih rest]

/-- The search from a page on the way is a part of the whole one. -/
lemma Trail.of_mem (h : t.Trail a row id l) {x : PageId} (hx : x ∈ l) :
    ∃ l', t.Trail a row x l' ∧ l'.length ≤ l.length := by
  induction h with
  | leaf hhas harrive =>
      obtain rfl := List.mem_singleton.mp hx
      exact ⟨_, .leaf hhas harrive, le_rfl⟩
  | inner hhas harrive rest ih =>
      obtain rfl | hx := List.mem_cons.mp hx
      · exact ⟨_, .inner hhas harrive rest, le_rfl⟩
      · obtain ⟨l', htrail, hle⟩ := ih hx
        exact ⟨l', htrail, hle.trans (Nat.le_succ _)⟩

/-- A page with the content of a node says of itself the id that was asked for. -/
lemma self_of_content {held : NodeContent ρ} (hp : p.Usual) (h : t.content id p = .ok held) :
    Node.self p = .ok id := by
  obtain ⟨n, hcount⟩ := hp.exists_count
  cases hk : t.kind id p with
  | error e =>
      rw [content, hcount, hk] at h
      cases h
  | ok k =>
      obtain ⟨_, hpasses⟩ := t.passes_of_kind hp hk
      exact hpasses.self

/-- Where the search from a child goes too far, so does that from its parent. -/
lemma far_of_child {e : Failure} (hhas : a.Has id.index)
    (harrive : t.arrive row id (a.page id.index) = .ok (.inner i child))
    (h : e.IsRefusal ∨ e = .endless ∧ Chain (t.Leads a row) n child) :
    e.IsRefusal ∨ e = .endless ∧ Chain (t.Leads a row) (n + 1) id :=
  h.imp_right fun ⟨he, hchain⟩ => ⟨he, child, ⟨hhas, i, harrive⟩, hchain⟩

variable (hR : t.rows.Supported key) (hpages : ∀ i, (a.page i).Usual)
include hR

/-- A page that a search came to says of itself the id that was asked for. -/
lemma self_of_arrive {arrival : Arrival} (hp : p.Usual) (h : t.arrive row id p = .ok arrival) :
    Node.self p = .ok id := by
  cases meets_of_arrive hR hp h with
  | leaf hpasses _ => exact hpasses.self
  | inner hpasses _ _ => exact hpasses.self

include hpages

/-- Two nodes in one page have the same id, which is what the page says of itself. -/
lemma eq_of_arrive {x y : PageId} {m m' : Arrival} (hx : t.arrive row x (a.page x.index) = .ok m)
    (hy : t.arrive row y (a.page y.index) = .ok m') (hindex : x.index = y.index) : x = y := by
  have hself := self_of_arrive hR (hpages _) hx
  rw [hindex, self_of_arrive hR (hpages _) hy] at hself
  exact (Except.ok.inj hself).symm

/-- A search that ends does not come back to a page, for it would come back again and again. -/
lemma Trail.apart (h : t.Trail a row child l) (hhas : a.Has id.index)
    (harrive : t.arrive row id (a.page id.index) = .ok (.inner i child)) :
    id.index ∉ l.map PageId.index := by
  intro hin
  obtain ⟨x, hx, hindex⟩ := List.mem_map.mp hin
  obtain ⟨l', htrail, hle⟩ := h.of_mem hx
  obtain ⟨arrival, hx'⟩ := htrail.exists_arrive
  obtain rfl := eq_of_arrive hR hpages hx' harrive hindex
  -- From the page met again the search goes on as it did the first time, so its trail would be a
  -- proper part of itself.
  rw [htrail.unique (.inner hhas harrive h), List.length_cons] at hle
  omega

/-- A search through more pages than there are goes in a circle. -/
lemma circles_of_leads (h : Chain (t.Leads a row) n id) (hn : a.count < n) : Circles (t.Leads a row) id := by
  refine h.circles hn (fun x y hxy => hxy.1.1) ?_
  rintro x y x' y' ⟨-, i, hx⟩ ⟨-, i', hx'⟩ hindex
  exact eq_of_arrive hR hpages hx hx' hindex

omit hR in
/-- A walk through more pages than there are goes in a circle. -/
lemma circles_of_links (h : Chain (t.Links a) n id) (hn : a.count < n) : Circles (t.Links a) id := by
  refine h.circles hn (fun x y hxy => hxy.1.1) ?_
  rintro x y x' y' ⟨-, children, hx, -⟩ ⟨-, children', hx', -⟩ hindex
  have hself := self_of_content (hpages _) hx
  rw [hindex, self_of_content (hpages _) hx'] at hself
  exact (Except.ok.inj hself).symm

end Trails

/-! ### Looking up a row -/

/-- The links that are followed lead in a circle below the root. -/
def Loops (R : PageId → PageId → Prop) (a : PageArray) : Prop :=
  ∃ root, MetaPage.root (a.page 0) = .ok root ∧ Circles R root

/-- The meta page names itself as the root. -/
def SelfRooted (a : PageArray) : Prop :=
  ∃ root, MetaPage.root (a.page 0) = .ok root ∧ root.index = 0

section Calls

variable {ρ κ δ : Type} [LinearOrder κ] [Device δ] {A : Device.Account δ} {t : Tree ρ} {key : ρ → κ}
  {s s' : Session δ} {row : ρ} {id child : PageId} {i n : ℕ}

omit [LinearOrder κ] in
/-- The root is read from the meta page, which can hold any id. -/
lemma root_safe (hs : s.Regular A t.cache) :
    Ends t.root s
      (fun root s' => MetaPage.root ((s.array A t.cache).page 0) = .ok root ∧
        s.Turns A t.cache (s.array A t.cache) s')
      (fun e _ => e.IsRefusal) := by
  have hsize := (hs.page_usual 0).1
  have hroot : MetaPage.root ((s.array A t.cache).page 0) = .ok _ := Page.pageId_region (by omega)
  exact (view_safe hs .metaPage (Settled.of_eq_ok hroot)).mono_ok fun _ _ h => h.2

/-- A path is given one step more than there are pages. -/
lemma reach_safe (hs : s.Regular A t.cache) :
    Ends t.reach s
      (fun n s' => n = (s.array A t.cache).count + 1 ∧ s.Turns A t.cache (s.array A t.cache) s')
      (fun e _ => e.IsRefusal) :=
  (pageCount_safe hs).bind fun _ _ h => ⟨congrArg (· + 1) h.1, h.2⟩

variable (hR : t.rows.Supported key)
include hR

/-- A search from a page ends, or the links it follows make a chain as long as it was given steps.
-/
lemma findFrom_safe (hs : s.Regular A t.cache) (n : ℕ) (id : PageId) :
    Ends (t.findFrom row n id) s (fun _ _ => True)
      (fun e _ => e.IsRefusal ∨ e = .endless ∧ Chain (t.Leads (s.array A t.cache) row) n id) := by
  induction n generalizing s id with
  | zero => exact Ends.of_error rfl (.inr ⟨rfl, trivial⟩)
  | succ n ih =>
      have hpage := hs.page_usual id.index
      refine (view_safe hs id (arrive_settled hR hpage row id)).or_inl.bind ?_
      rintro arrival s₁ ⟨hhas, harrive, hturns⟩
      have hs₁ := hturns.regular hs
      -- At a leaf the row is read, if it was found; at an inner node the search goes on in a
      -- cache that is what it was.
      cases meets_of_arrive hR hpage harrive with
      | @leaf n at_ hpasses hat =>
          cases at_ with
          | gap i => trivial
          | found i =>
              have hload := loadSlot_settled hR hpage .leaf (hat.trans_le hpasses.le)
              rw [← hturns.array] at hload
              exact Ends.map ((view_safe hs₁ id hload).mono (fun _ _ _ => trivial) fun _ _ h => .inl h)
      | @inner n i child hpasses hi hlink =>
          have hbelow := ih hs₁ child
          rw [hturns.array] at hbelow
          exact hbelow.mono_error fun _ _ h => far_of_child hhas harrive h

/-- A search from the root ends, or the links below the root lead in a circle. -/
theorem find_safe (hs : s.Regular A t.cache) (row : ρ) :
    Ends (t.find? row) s (fun _ _ => True)
      (fun e _ => e.IsRefusal ∨
        e = .endless ∧ Loops (t.Leads (s.array A t.cache) row) (s.array A t.cache)) := by
  refine (reach_safe hs).or_inl.bind ?_
  rintro _ s₁ ⟨rfl, h₁⟩
  refine (root_safe (h₁.regular hs)).or_inl.bind ?_
  rintro root s₂ ⟨hroot, h₂⟩
  rw [h₁.array] at hroot h₂
  have h₂ := h₁.trans h₂
  refine (findFrom_safe hR (h₂.regular hs) _ root).mono_error fun e _ h => h.imp_right ?_
  rw [h₂.array]
  exact fun ⟨he, hchain⟩ => ⟨he, root, hroot, circles_of_leads hR hs.page_usual hchain (Nat.lt_succ_self _)⟩

/-! ### Putting a row -/

omit hR [LinearOrder κ] in
/-- The number of keys and the page size, as they are asked of a full or not full node. -/
lemma count_safe (hs : s.Regular A t.cache) (hcount : Node.count ((s.array A t.cache).page id.index) = .ok n) :
    Ends (view t.cache id fun p => return (← Node.count p, p.size)) s
      (fun r s' => r = (n, s.size) ∧ s.Turns A t.cache (s.array A t.cache) s') (fun e _ => e.IsRefusal) := by
  have hlook : (do return (← Node.count ((s.array A t.cache).page id.index),
      ((s.array A t.cache).page id.index).size) : Except Failure (ℕ × ℕ)) = .ok (n, s.size) := by
    rw [hcount, hs.page_size]
    rfl
  refine (view_safe hs id (Settled.of_eq_ok hlook)).mono_ok ?_
  exact fun r s' h => ⟨Except.ok.inj (h.2.1.symm.trans hlook), h.2.2⟩

omit hR [LinearOrder κ] in
/-- A tame change of a page changes that one only. -/
lemma edit_tame {α : Type} {m : PageM α} (hs : s.Regular A t.cache) (hm : m.Steady)
    (htame : m.Tame ((s.array A t.cache).page id.index)) :
    Ends (edit t.cache id m) s (fun _ s' => s.Alters A t.cache [id.index] s') (fun e _ => e.IsRefusal) := by
  refine (edit_safe hs id hm (htame.mono_error fun _ _ h => h.1) fun _ h => h).mono_ok ?_
  rintro _ s' ⟨-, q, hq, hturns⟩
  exact (Alters.refl hs _).set hturns fun _ => ⟨List.mem_singleton_self _, hq⟩

omit hR [LinearOrder κ] in
/-- A node is cut in half: a new one gets what stands behind its first `m` keys, and what was to
be put in goes into one of the two. -/
lemma cut_safe (hs : s.Regular A t.cache) (hin : id.index < (s.array A t.cache).count)
    {fill : PageId → Page → PageM Unit} {left right : PageM Unit} {α : Type} {rest : PageId → SessionM δ α}
    {m k : ℕ} {first : Prop} [Decidable first] {Q : α → Session δ → Prop} (hm : m < 256 ^ 2)
    (hfill : ∀ (new : PageId) (p : Page), (fill new p).Steady)
    (hfills : ∀ (new : PageId) (q : Page), q.size = s.size →
      Ends (fill new ((s.array A t.cache).page id.index)) q (fun _ q => Node.count q = .ok k)
        fun e _ => e.IsRefusal)
    (hleft : left.Steady) (hright : right.Steady)
    (hlefts : ∀ q : Page, q.size = s.size → Node.count q = .ok m → first → left.Tame q)
    (hrights : ∀ q : Page, q.size = s.size → Node.count q = .ok k → ¬ first → right.Tame q)
    (hrest : ∀ new s', s.Alters A t.cache [id.index] s' → Ends (rest new) s' Q fun e _ => e.IsRefusal) :
    Ends (do
      let new ← t.allocate
      let p ← view t.cache id pure
      edit t.cache new (fill new p)
      edit t.cache id (Node.setCount m)
      if first then
        edit t.cache id left
        rest new
      else
        edit t.cache new right
        rest new) s Q (fun e _ => e.IsRefusal) := by
  refine (allocate_safe hs t.rows.partition t.rows.space).bind ?_
  rintro new s₁ ⟨hnew, hturns₁⟩
  have h₁ := (Alters.refl hs [id.index]).push hturns₁
  have hne : id.index ≠ new.index := hnew ▸ hin.ne
  have hout : ¬ new.index < (s.array A t.cache).count := hnew ▸ lt_irrefl _
  have hpage : (s₁.array A t.cache).page id.index = (s.array A t.cache).page id.index := by
    rw [hturns₁.array]
    exact Function.update_of_ne hin.ne _ _
  refine (view_safe h₁.regular id (settled_ok _)).bind ?_
  rintro p s₂ ⟨-, hp, hturns₂⟩
  have h₂ := h₁.stay hturns₂
  obtain rfl : (s₁.array A t.cache).page id.index = p := Except.ok.inj hp
  have hsize₂ : ((s₂.array A t.cache).page new.index).size = s.size := by
    rw [h₂.regular.page_size, h₂.size]
  refine (edit_safe h₂.regular new (hfill new _) (hpage ▸ hfills new _ hsize₂) fun _ h => h).bind ?_
  rintro - s₃ ⟨-, q, hq, hturns₃⟩
  have h₃ := h₂.set hturns₃ fun hlt => absurd hlt hout
  obtain ⟨r, hcount, hkeeps, hr⟩ := setCount_run (h₃.regular.page_usual id.index) hm
  refine (edit_safe h₃.regular id (Node.setCount_steady m) (Ends.of_ok (Q := fun _ r' => r' = r) hcount rfl)
    fun _ h => h).bind ?_
  rintro - s₄ ⟨-, r, rfl, hturns₄⟩
  have h₄ := h₃.set hturns₄ fun _ => ⟨List.mem_singleton_self _, hkeeps⟩
  -- What the two halves hold before the row goes into one of them.
  have hleft₄ : (s₄.array A t.cache).page id.index = r := by
    rw [hturns₄.array, PageArray.page_set_self]
  have hright₄ : (s₄.array A t.cache).page new.index = q := by
    rw [hturns₄.array, PageArray.page_set_of_ne hne.symm, hturns₃.array, PageArray.page_set_self]
  have hsize₄ : ∀ i, ((s₄.array A t.cache).page i).size = s.size := fun i => by
    rw [h₄.regular.page_size, h₄.size]
  -- The left half is a page that may change; the right one was not there before.
  split
  · rename_i hfirst
    refine (edit_safe h₄.regular id hleft ((hlefts _ (hsize₄ _) (hleft₄ ▸ hr) hfirst).mono_error
      fun _ _ h => h.1) fun _ h => h).bind ?_
    rintro - s₅ ⟨-, u, hu, hturns₅⟩
    exact hrest new s₅ (h₄.set hturns₅ fun _ => ⟨List.mem_singleton_self _, hu⟩)
  · rename_i hsecond
    refine (edit_safe h₄.regular new hright ((hrights _ (hsize₄ _) (hright₄ ▸ hq) hsecond).mono_error
      fun _ _ h => h.1) fun _ h => h).bind ?_
    rintro - s₅ ⟨-, u, -, hturns₅⟩
    exact hrest new s₅ (h₄.set hturns₅ fun hlt => absurd hlt hout)

/-- A full leaf is cut in half; of the pages that were there it is the only one changed. -/
lemma splitLeaf_safe (hs : s.Regular A t.cache) (hin : id.index < (s.array A t.cache).count)
    (hpasses : t.Passes .leaf id n ((s.array A t.cache).page id.index))
    (hfull : t.rows.leaf.capacity s.size ≤ n) (hi : i ≤ n) (row : ρ) :
    Ends (t.splitLeaf id n i row) s (fun _ s' => s.Alters A t.cache [id.index] s')
      (fun e _ => e.IsRefusal) := by
  have hle : n ≤ t.rows.leaf.capacity s.size := hs.page_size id.index ▸ hpasses.le
  have htwo := (hR.roomy hs.usual.1).leaf
  have hlt := t.rows.leaf.capacity_lt hs.usual.2
  have husual : ∀ q : Page, q.size = s.size → q.Usual := fun q hq => by
    rw [Page.Usual, hq]
    exact hs.usual
  -- Half of the rows move over, so there is room in both halves, and the right one is not empty.
  refine cut_safe hs hin (k := n - n / 2) (by omega) (fun _ _ => fillRightLeaf_steady hR.steady _ _ _ _)
    (fun new q hq => ?_) (insertRow_steady hR.steady _ _) (insertRow_steady hR.steady _ _)
    (fun q hq hcount hfirst => ?_) (fun q hq hcount hsecond => ?_) fun new s' hs' => ?_
  · exact fillRightLeaf_ends hR (husual q hq) ((hs.page_size _).trans hq.symm) new (hq.symm ▸ hle)
      (Nat.div_le_self n 2)
  · exact tame_insertRow hR (husual q hq) hcount hfirst (by rw [hq]; omega) row
  · exact tame_insertRow hR (husual q hq) hcount (by omega) (by rw [hq]; omega) row
  · have hsize := hs'.regular.page_size new.index
    refine (view_safe hs'.regular new (loadSlot_settled hR (hs'.regular.page_usual _) .leaf ?_)).bind ?_
    · change 0 < t.rows.leaf.capacity _
      rw [hsize, hs'.size]
      omega
    · rintro sep s'' ⟨-, -, hturns⟩
      exact hs'.stay hturns

/-- A row is put into a leaf, which is the only page changed of those that were there. -/
lemma putInLeaf_safe (hs : s.Regular A t.cache) (hin : id.index < (s.array A t.cache).count) {at_ : Position}
    (hpasses : t.Passes .leaf id n ((s.array A t.cache).page id.index)) (hat : at_.Within n) (row : ρ) :
    Ends (t.putInLeaf id at_ row) s (fun _ s' => s.Alters A t.cache [id.index] s')
      (fun e _ => e.IsRefusal) := by
  -- A key that was found has its row replaced, which needs no room.
  cases at_ with
  | found i =>
      have htame := tame_replaceRow hR (hs.page_usual id.index) (hat.trans_le hpasses.le) row
      exact (edit_tame hs (replaceRow_steady hR.steady i row) htame).bind fun _ _ h => h
  | gap i =>
      refine (count_safe hs hpasses.count).bind ?_
      rintro _ s₁ ⟨rfl, hturns⟩
      have hs₁ := hturns.regular hs
      have h₁ := (Alters.refl hs [id.index]).stay hturns
      rw [← hturns.array] at hin hpasses
      dsimp only
      split
      · rename_i hroom
        have htame := tame_insertRow hR (hs₁.page_usual id.index) hpasses.count hat
          (by rwa [hs₁.page_size, hturns.size]) row
        refine (edit_tame hs₁ (insertRow_steady hR.steady i row) htame).bind ?_
        exact fun _ s' h => h₁.trans h
      · rename_i hfull
        refine (splitLeaf_safe hR hs₁ hin hpasses (hturns.size ▸ Nat.not_lt.mp hfull) hat row).mono_ok ?_
        exact fun _ s' h => h₁.trans h

/-- A full inner node is cut in half; of the pages that were there it is the only one changed. -/
lemma splitInner_safe (hs : s.Regular A t.cache) (hin : id.index < (s.array A t.cache).count)
    (hpasses : t.Passes .inner id n ((s.array A t.cache).page id.index))
    (hfull : t.rows.inner.capacity s.size ≤ n) (hi : i ≤ n) (sep : ρ) (link : PageId) :
    Ends (t.splitInner id n i sep link) s (fun _ s' => s.Alters A t.cache [id.index] s')
      (fun e _ => e.IsRefusal) := by
  have hle : n ≤ t.rows.inner.capacity s.size := hs.page_size id.index ▸ hpasses.le
  have hone := (hR.roomy hs.usual.1).inner
  have hlt := t.rows.inner.capacity_lt hs.usual.2
  refine (view_safe hs id (loadSlot_settled hR (hs.page_usual id.index) .inner ?_)).bind ?_
  · change n / 2 < t.rows.inner.capacity _
    rw [hs.page_size]
    omega
  rintro promoted s₁ ⟨-, -, hturns⟩
  have hs₁ := hturns.regular hs
  have h₁ := (Alters.refl hs [id.index]).stay hturns
  rw [← hturns.array] at hin
  rw [← hturns.size] at hle hone hlt hfull
  have husual : ∀ q : Page, q.size = s₁.size → q.Usual := fun q hq => by
    rw [Page.Usual, hq]
    exact hs₁.usual
  -- The key in the middle goes up, so there is room in both halves.
  refine cut_safe hs₁ hin (k := n - n / 2 - 1) (by omega)
    (fun _ _ => fillRightInner_steady hR.steady _ _ _ _) (fun new q hq => ?_)
    (insertSeparator_steady hR.steady _ _ _) (insertSeparator_steady hR.steady _ _ _)
    (fun q hq hcount hfirst => ?_) (fun q hq hcount hsecond => ?_) fun new s' hs' => h₁.trans hs'
  · exact fillRightInner_ends hR (husual q hq) ((hs₁.page_size _).trans hq.symm) new (hq.symm ▸ hle)
      (by omega)
  · exact tame_insertSeparator hR (husual q hq) hcount hfirst (by rw [hq]; omega) sep link
  · exact tame_insertSeparator hR (husual q hq) hcount (by omega) (by rw [hq]; omega) sep link

/-- A separator is put into an inner node, which is the only page changed of those that were
there. -/
lemma putSeparator_safe (hs : s.Regular A t.cache) (hin : id.index < (s.array A t.cache).count)
    (hpasses : t.Passes .inner id n ((s.array A t.cache).page id.index)) (hi : i ≤ n) (sep : ρ)
    (link : PageId) :
    Ends (t.putSeparator id i sep link) s (fun _ s' => s.Alters A t.cache [id.index] s')
      (fun e _ => e.IsRefusal) := by
  refine (count_safe hs hpasses.count).bind ?_
  rintro _ s₁ ⟨rfl, hturns⟩
  have hs₁ := hturns.regular hs
  have h₁ := (Alters.refl hs [id.index]).stay hturns
  rw [← hturns.array] at hin hpasses
  dsimp only
  split
  · rename_i hroom
    have htame := tame_insertSeparator hR (hs₁.page_usual id.index) hpasses.count hi
      (by rwa [hs₁.page_size, hturns.size]) sep link
    refine (edit_tame hs₁ (insertSeparator_steady hR.steady i sep link) htame).bind ?_
    exact fun _ s' h => h₁.trans h
  · rename_i hfull
    refine Ends.map ((splitInner_safe hR hs₁ hin hpasses (hturns.size ▸ Nat.not_lt.mp hfull) hi
      sep link).mono_ok ?_)
    exact fun _ s' h => h₁.trans h

/-- What a search does below a child changes the pages on its trail and no others. It does not come
back to the node, which can still be read as it was met. -/
lemma below_safe {β : Type} {call : SessionM δ β} {s s₁ : Session δ} {row : ρ} {id child : PageId}
    {i n : ℕ} (hs : s.Regular A t.cache) (hhas : (s.array A t.cache).Has id.index)
    (harrive : t.arrive row id ((s.array A t.cache).page id.index) = .ok (.inner i child))
    (hturns : s.Turns A t.cache (s.array A t.cache) s₁)
    (hcall : Ends call s₁
      (fun _ s' => ∃ l, t.Trail (s₁.array A t.cache) row child l ∧
        s₁.Alters A t.cache (l.map PageId.index) s')
      (fun e _ => e.IsRefusal ∨ e = .endless ∧ Chain (t.Leads (s₁.array A t.cache) row) n child)) :
    Ends call s₁
      (fun _ s₂ => ∃ l, child ∈ l ∧ t.Trail (s.array A t.cache) row id (id :: l) ∧
        s.Alters A t.cache ((id :: l).map PageId.index) s₂ ∧
        (s₂.array A t.cache).page id.index = (s.array A t.cache).page id.index)
      (fun e _ => e.IsRefusal ∨
        e = .endless ∧ Chain (t.Leads (s.array A t.cache) row) (n + 1) id) := by
  rw [hturns.array] at hcall
  refine hcall.mono ?_ fun _ _ h => far_of_child hhas harrive h
  rintro _ s₂ ⟨l, htrail, h₂⟩
  have hall : s.Alters A t.cache (l.map PageId.index) s₂ := ((Alters.refl hs _).stay hturns).trans h₂
  exact ⟨l, htrail.head_mem, .inner hhas harrive htrail, hall.mono (List.subset_cons_self _ _),
    hall.same id.index hhas.1 (htrail.apart hR hs.page_usual hhas harrive)⟩

/-- A search for the place of a row goes through different pages, and the row changes none but
these. -/
lemma putFrom_safe (hs : s.Regular A t.cache) (row : ρ) (n : ℕ) (id : PageId) :
    Ends (t.putFrom row n id) s
      (fun _ s' => ∃ l, t.Trail (s.array A t.cache) row id l ∧
        s.Alters A t.cache (l.map PageId.index) s')
      (fun e _ => e.IsRefusal ∨ e = .endless ∧ Chain (t.Leads (s.array A t.cache) row) n id) := by
  -- The invariant is about the array before the whole call: the pages on the trail may have
  -- changed since, and they are told apart by what they were met as.
  induction n generalizing s id with
  | zero => exact Ends.of_error rfl (.inr ⟨rfl, trivial⟩)
  | succ n ih =>
      have hpage := hs.page_usual id.index
      refine (edit_look_safe hs id (arrive_settled hR hpage row id)).or_inl.bind ?_
      rintro arrival s₁ ⟨hhas, harrive, hturns⟩
      have hs₁ := hturns.regular hs
      have h₁ := fun T => (Alters.refl hs T).stay hturns
      cases meets_of_arrive hR hpage harrive with
      | leaf hpasses hat =>
          rw [← hturns.array] at hpasses
          refine (putInLeaf_safe hR hs₁ (hturns.array.symm ▸ hhas.1) hpasses hat row).mono ?_ fun _ _ h => .inl h
          exact fun _ s' h => ⟨_, .leaf hhas harrive, (h₁ _).trans h⟩
      | @inner m i child hpasses hi hlink =>
          refine (below_safe hR hs hhas harrive hturns (ih hs₁ child)).bind ?_
          rintro ⟨old, split⟩ s₂ ⟨l, -, htrail, h₂, hsame⟩
          cases split with
          | none => exact ⟨_, htrail, h₂⟩
          | some cut =>
              rw [← hsame] at hpasses
              refine (putSeparator_safe hR h₂.regular (hhas.1.trans_le h₂.count) hpasses hi cut.1
                cut.2).or_inl.bind ?_
              exact fun _ s' h => ⟨_, htrail, h₂.trans (h.mono (by simp))⟩

/-- Putting a row ends, or the links of its search lead in a circle, or the level has no number
above it. -/
theorem put_safe (hs : s.Regular A t.cache) (row : ρ) :
    Ends (t.put row) s (fun _ _ => True)
      (fun e _ => e.IsRefusal ∨
        e = .endless ∧ Loops (t.Leads (s.array A t.cache) row) (s.array A t.cache) ∨
        e = .levelOverflow ∧
          MetaPage.level ((s.array A t.cache).page 0) = .ok (MetaPage.levelLimit - 1)) := by
  rw [put]
  cases hfits : t.rows.fits row with
  | error e => exact Ends.of_error rfl (.inl ⟨e, rfl⟩)
  | ok =>
      refine (root_safe hs).or_inl.bind ?_
      rintro root s₁ ⟨hroot, h₁⟩
      refine (reach_safe (h₁.regular hs)).or_inl.bind ?_
      rintro _ s₂ ⟨rfl, h₂⟩
      rw [h₁.array] at h₂ ⊢
      have h₂ := h₁.trans h₂
      have hs₂ := h₂.regular hs
      have hput := putFrom_safe hR hs₂ row ((s.array A t.cache).count + 1) root
      rw [h₂.array] at hput
      refine (hput.mono_error fun e _ h => h.imp_right fun hend => .inl ⟨hend.1, root, hroot,
        circles_of_leads hR hs.page_usual hend.2 (Nat.lt_succ_self _)⟩).bind ?_
      rintro ⟨old, split⟩ s₃ ⟨l, htrail, h₃⟩
      have h₃ := ((Alters.refl hs _).stay h₂).trans h₃
      -- A root that was cut in half gets a new one above it, and the level goes up. The meta page
      -- may be on the trail, but it still says the same of itself, and of the level.
      cases split with
      | none => trivial
      | some cut =>
          refine (allocate_safe h₃.regular _ _).or_inl.bind ?_
          rintro new s₄ ⟨hnew, hturns₄⟩
          have h₄ := h₃.push hturns₄
          have hcount := h₃.count
          refine (edit_safe h₄.regular new (fillRoot_steady hR.steady _ _ _ _)
            (fillRoot_ends hR (h₄.regular.page_usual _) ?_ new root cut.2 cut.1)
            fun _ h => h).or_inl.bind ?_
          · rw [h₄.regular.page_size]
            exact hR.roomy h₄.regular.usual.1
          rintro - s₅ ⟨-, q, -, hturns₅⟩
          have h₅ := h₄.set hturns₅ fun hlt => absurd hlt (by omega)
          have hpos := Nat.zero_lt_of_lt htrail.has.1
          have hraise := raiseRoot_ends (h₅.regular.page_usual 0) new
          rw [level_of_keepsSelf (hs.page_usual 0) (h₅.first hpos)] at hraise
          refine (edit_safe h₅.regular .metaPage (raiseRoot_steady new) (hraise.mono_error
            fun _ _ h => .inr (.inr h)) fun _ h => .inl h).bind ?_
          exact fun _ _ _ => trivial

/-! ### Removing a row -/

/-- A search for a row goes through different pages, and its removal changes none but these. -/
lemma removeFrom_safe (hs : s.Regular A t.cache) (row : ρ) (n : ℕ) (id : PageId) :
    Ends (t.removeFrom row n id) s
      (fun _ s' => ∃ l, t.Trail (s.array A t.cache) row id l ∧
        s.Alters A t.cache (l.map PageId.index) s')
      (fun e _ => e.IsRefusal ∨ e = .endless ∧ Chain (t.Leads (s.array A t.cache) row) n id) := by
  -- As for an insertion. A child that is left empty is on the trail, so it may be freed.
  induction n generalizing s id with
  | zero => exact Ends.of_error rfl (.inr ⟨rfl, trivial⟩)
  | succ n ih =>
      have hpage := hs.page_usual id.index
      refine (edit_look_safe hs id (arrive_settled hR hpage row id)).or_inl.bind ?_
      rintro arrival s₁ ⟨hhas, harrive, hturns⟩
      have hs₁ := hturns.regular hs
      have h₁ := fun T => (Alters.refl hs T).stay hturns
      cases meets_of_arrive hR hpage harrive with
      | @leaf m at_ hpasses hat =>
          cases at_ with
          | gap i => exact ⟨_, .leaf hhas harrive, h₁ _⟩
          | found i =>
              rw [← hturns.array] at hpasses
              have htame := tame_eraseRow hR (hs₁.page_usual id.index) hpasses.count hat hpasses.le
              refine (edit_tame hs₁ (eraseRow_steady i) htame).mono ?_ fun _ _ h => .inl h
              exact fun _ s' h => ⟨_, .leaf hhas harrive, (h₁ _).trans h⟩
      | @inner m i child hpasses hi hlink =>
          refine (below_safe hR hs hhas harrive hturns (ih hs₁ child)).bind ?_
          rintro ⟨old, empty⟩ s₂ ⟨l, hchild, htrail, h₂, hsame⟩
          cases empty with
          | false => exact ⟨_, htrail, h₂⟩
          | true =>
              rw [← hsame] at hpasses
              have htame := tame_eraseLink hR (h₂.regular.page_usual id.index) hpasses.count hi hpasses.le
              refine (edit_tame h₂.regular (eraseLink_steady i) htame).or_inl.bind ?_
              intro empty s₃ h₃
              have h₃ : s.Alters A t.cache ((id :: l).map PageId.index) s₃ := h₂.trans (h₃.mono (by simp))
              refine (free_safe h₃.regular child).or_inl.bind ?_
              rintro - s₄ ⟨hzero, -, hturns₄⟩
              have hin : child.index ∈ (id :: l).map PageId.index :=
                List.mem_map_of_mem (List.mem_cons_of_mem id hchild)
              exact ⟨_, htrail, h₃.release hturns₄ hin hzero⟩

/-- An empty root is made a leaf, unless it is the meta page, which waits for itself. -/
lemma resetRoot_safe (hs : s.Regular A t.cache) (root : PageId) :
    Ends (t.resetRoot root) s (fun _ s' => s'.Regular A t.cache)
      (fun e _ => e.IsRefusal ∨ e = .stuck ∧ root.index = 0) := by
  refine (edit_safe hs root (clearRoot_steady root) (clearRoot_ends hR (hs.page_usual root.index) root)
    fun _ h => h).or_inl.bind ?_
  rintro cleared s₁ ⟨-, _, -, hturns₁⟩
  have hs₁ := hturns₁.regular hs
  cases cleared with
  | false => exact hs₁
  | true =>
      have hsize := (hs₁.page_usual 0).1
      obtain ⟨q, hq⟩ := Page.exists_splice ((s₁.array A t.cache).page 0) 8 (Bytes.ofNat 4 0)
        (by rw [Bytes.length_ofNat]; omega)
      have hlevel := edit_safe (F := Failure.IsRefusal) hs₁ .metaPage (MetaPage.setLevel_steady 0)
        (Ends.of_ok (Q := fun _ _ => True) (PageM.change_ok hq) trivial) fun _ h => h
      -- The level is written while the root is held, so a root that is the meta page is waited
      -- for.
      by_cases hroot : root.index = 0
      · rw [if_pos rfl, if_pos hroot]
        exact Ends.of_error rfl (.inr ⟨rfl, hroot⟩)
      · rw [if_pos rfl, if_neg hroot]
        refine hlevel.mono ?_ fun _ _ h => .inl h
        rintro - s₂ ⟨-, _, -, hturns₂⟩
        exact hturns₂.regular hs₁

/-- The number of pages that are not freed. -/
def kept (a : PageArray) : ℕ := (Finset.range a.count \ a.freed).card

omit hR [LinearOrder κ] in
/-- Freeing a page that is there leaves fewer that are not freed. -/
lemma kept_release {a : PageArray} {i : ℕ} (h : a.Has i) (size : ℕ) : kept (a.release i size) < kept a := by
  -- The page itself is the one that was not freed before.
  refine Finset.card_lt_card (Finset.ssubset_iff_of_subset ?_ |>.mpr ⟨i, ?_, ?_⟩)
  · exact Finset.sdiff_subset_sdiff le_rfl (Finset.subset_insert i a.freed)
  · exact Finset.mem_sdiff.mpr ⟨Finset.mem_range.mpr h.1, h.2⟩
  · exact fun hin => (Finset.mem_sdiff.mp hin).2 (Finset.mem_insert_self i a.freed)

/-- Each round frees a page, so the rounds come to an end. -/
lemma collapseRoot_safe (hs : s.Regular A t.cache) (n : ℕ) (hn : kept (s.array A t.cache) < n) :
    Ends (t.collapseRoot n) s (fun _ _ => True) (fun e _ => e.IsRefusal) := by
  -- What goes down with every round is the number of pages that are not freed.
  induction n generalizing s with
  | zero => exact absurd hn (Nat.not_lt_zero _)
  | succ n ih =>
      refine (root_safe hs).bind ?_
      rintro root s₁ ⟨-, h₁⟩
      have hs₁ := h₁.regular hs
      refine (view_safe hs₁ root (onlyChild?_settled hR (hs₁.page_usual root.index) root)).bind ?_
      rintro child s₂ ⟨-, -, h₂⟩
      have hs₂ := h₂.regular hs₁
      cases child with
      | none => trivial
      | some child =>
          have hlower := lowerRoot_ends (hs₂.page_usual 0) child
          refine (edit_safe hs₂ .metaPage (lowerRoot_steady child)
            (hlower.mono_error fun _ _ h => h.elim) fun _ h => h).bind ?_
          rintro - s₃ ⟨-, q, -, h₃⟩
          have hs₃ := h₃.regular hs₂
          refine (free_safe hs₃ root).bind ?_
          rintro - s₄ ⟨-, hhas, h₄⟩
          refine ih (h₄.regular hs₃) (lt_of_lt_of_le ?_ (Nat.le_of_lt_succ hn))
          have hkept : kept (s₃.array A t.cache) = kept (s.array A t.cache) := by
            rw [h₃.array, h₂.array, h₁.array, kept, PageArray.count_set, PageArray.freed_set, kept]
          rw [h₄.array, ← hkept]
          exact kept_release hhas s₃.size

/-- Removing a row ends, or the links of its search lead in a circle, or the meta page is its own
root. -/
theorem remove_safe (hs : s.Regular A t.cache) (row : ρ) :
    Ends (t.remove row) s (fun _ _ => True)
      (fun e _ => e.IsRefusal ∨
        e = .endless ∧ Loops (t.Leads (s.array A t.cache) row) (s.array A t.cache) ∨
        e = .stuck ∧ SelfRooted (s.array A t.cache)) := by
  refine (root_safe hs).or_inl.bind ?_
  rintro root s₁ ⟨hroot, h₁⟩
  refine (reach_safe (h₁.regular hs)).or_inl.bind ?_
  rintro _ s₂ ⟨rfl, h₂⟩
  rw [h₁.array] at h₂ ⊢
  have h₂ := h₁.trans h₂
  have hremove := removeFrom_safe hR (h₂.regular hs) row ((s.array A t.cache).count + 1) root
  rw [h₂.array] at hremove
  refine (hremove.mono_error fun e _ h => h.imp_right fun ⟨he, hchain⟩ => .inl ⟨he, root,
    hroot, circles_of_leads hR hs.page_usual hchain (Nat.lt_succ_self _)⟩).bind ?_
  rintro ⟨old, empty⟩ s₃ ⟨l, -, h₃⟩
  -- Whatever the removal left of the pages, the root can be collapsed.
  have hcollapse : ∀ s : Session δ, s.Regular A t.cache → Ends (do
      t.collapseRoot (← t.reach)
      return old : SessionM δ (Option ρ)) s (fun _ _ => True) (fun e _ => e.IsRefusal) := by
    intro s hs
    refine (reach_safe hs).bind ?_
    rintro _ s' ⟨rfl, hturns⟩
    refine (collapseRoot_safe hR (hturns.regular hs) _ ?_).bind fun _ _ _ => trivial
    rw [hturns.array, kept]
    refine Nat.lt_succ_of_le ((Finset.card_le_card Finset.sdiff_subset).trans ?_)
    rw [Finset.card_range]
  cases empty with
  | false => exact (hcollapse s₃ h₃.regular).or_inl
  | true =>
      refine ((resetRoot_safe hR h₃.regular root).mono_error fun _ _ h =>
        h.imp_right fun ⟨he, hzero⟩ => .inr ⟨he, root, hroot, hzero⟩).bind fun _ s₄ hs₄ => ?_
      exact (hcollapse s₄ hs₄).or_inl

/-! ### Walks -/

omit hR [LinearOrder κ] [Device δ] in
/-- A call of the session within a walk ends as it does by itself. -/
lemma during_ends {α β : Type} {m : SessionM δ α} {Q : α → Session δ → Prop} {F : Failure → Prop}
    (h : Ends m s Q fun e _ => F e) (b : β) :
    Ends (during m : WalkM δ β α) (b, s) (fun r s' => Q r s'.2) (fun e _ => F e) := by
  rcases hrun : m s with ⟨e | r, s'⟩
  · exact Ends.of_error (t := (b, s')) (by rw [during]; simp only [hrun]) (h.error hrun)
  · exact Ends.of_ok (t := (b, s')) (by rw [during]; simp only [hrun]) (h.ok hrun)

/-- A walk from a page ends, or the links it follows make a chain as long as it was given steps.
-/
lemma walkFrom_safe {β : Type} (visit : β → ρ → Except Error β) (b : β) (hs : s.Regular A t.cache) (n : ℕ)
    (id : PageId) :
    Ends (t.walkFrom visit n id) (b, s)
      (fun _ s' => s.Turns A t.cache (s.array A t.cache) s'.2)
      (fun e _ => e.IsRefusal ∨ e = .endless ∧ Chain (t.Links (s.array A t.cache)) n id) := by
  -- A walk leaves the array as it is, so the chain is one of links in the array it began with.
  induction n generalizing b s id with
  | zero => exact Ends.of_error rfl (.inr ⟨rfl, trivial⟩)
  | succ n ih =>
      have hview := view_safe hs id (content_settled hR (hs.page_usual id.index) id)
      refine (during_ends hview b).or_inl.bind ?_
      rintro held ⟨b₁, s₁⟩ ⟨hhas, hcontent, h₁⟩
      cases held with
      | leaf rows =>
          -- The rows are visited one by one; a visitor that refuses one ends the walk.
          refine ends_forM (I := fun s' : β × Session δ => s.Turns A t.cache (s.array A t.cache) s'.2) rows ?_ h₁
          rintro row - ⟨b₂, s₂⟩ h₂
          cases hvisit : visit b₂ row with
          | ok b₃ => exact Ends.of_ok (t := (b₃, s₂)) (by rw [visitRow_run, hvisit]) h₂
          | error e => exact Ends.of_error (t := (b₂, s₂)) (by rw [visitRow_run, hvisit]) (.inl ⟨e, rfl⟩)
      | inner children =>
          refine ends_forM (I := fun s' : β × Session δ => s.Turns A t.cache (s.array A t.cache) s'.2) children
            ?_ h₁
          rintro child hchild ⟨b₂, s₂⟩ h₂
          have hbelow := ih b₂ (h₂.regular hs) child
          rw [h₂.array] at hbelow
          refine hbelow.mono (fun _ _ h => h₂.trans h) fun e _ h => h.imp_right fun ⟨he, hchain⟩ => ?_
          exact ⟨he, child, ⟨hhas, children, hcontent, hchild⟩, hchain⟩

/-- A walk with more steps than there are pages ends, or the links below the root lead in a
circle. -/
theorem walk_safe {β : Type} (visit : β → ρ → Except Error β) (b : β) (hs : s.Regular A t.cache) {depth : ℕ}
    (hdepth : (s.array A t.cache).count < depth) :
    Ends (t.walk visit b depth) s
      (fun r _ => ∀ e, r.2 = .error e → e.IsRefusal ∨
        e = .endless ∧ Loops (t.Links (s.array A t.cache)) (s.array A t.cache))
      (fun _ _ => False) := by
  have hwalk : Ends (do t.walkFrom visit depth (← during t.root) : WalkM δ β Unit) (b, s) (fun _ _ => True)
      (fun e _ => e.IsRefusal ∨
        e = .endless ∧ Loops (t.Links (s.array A t.cache)) (s.array A t.cache)) := by
    refine (during_ends (root_safe hs) b).or_inl.bind ?_
    rintro root ⟨b₁, s₁⟩ ⟨hroot, h₁⟩
    have hbelow := walkFrom_safe hR visit b₁ (h₁.regular hs) depth root
    rw [h₁.array] at hbelow
    refine hbelow.mono (fun _ _ _ => trivial) fun e _ h => h.imp_right fun ⟨he, hchain⟩ => ?_
    exact ⟨he, root, hroot, circles_of_links hs.page_usual hchain hdepth⟩
  -- The walk gives its value together with how it ended, so the call itself always succeeds.
  rcases hrun : (do t.walkFrom visit depth (← during t.root) : WalkM δ β Unit) (b, s)
    with ⟨e | ⟨⟩, b', s'⟩
  · refine Ends.of_ok (a := (b', .error e)) (t := s') (by rw [walk, hrun]) fun e' he' => ?_
    obtain rfl := Except.error.inj he'
    exact hwalk.error hrun
  · refine Ends.of_ok (a := (b', .ok ())) (t := s') (by rw [walk, hrun]) fun e' he' => ?_
    cases he'

/-- Counting the rows ends, or the links below the root lead in a circle. -/
theorem size_safe (hs : s.Regular A t.cache) :
    Ends t.size s (fun _ _ => True)
      (fun e _ => e.IsRefusal ∨
        e = .endless ∧ Loops (t.Links (s.array A t.cache)) (s.array A t.cache)) := by
  refine (reach_safe hs).or_inl.bind ?_
  rintro _ s₁ ⟨rfl, h₁⟩
  have hwalk := walk_safe hR (fun n row => .ok (n + 1)) 0 (h₁.regular hs)
    (h₁.array ▸ Nat.lt_succ_self (s.array A t.cache).count)
  rw [h₁.array] at hwalk
  refine (hwalk.mono_error fun _ _ h => h.elim).bind ?_
  rintro ⟨k, r⟩ s₂ hr
  cases r with
  | ok => trivial
  | error e => exact Ends.of_error rfl (hr e rfl)

/-! ### Taking a tree over -/

omit hR [LinearOrder κ] in
/-- A tree is taken over, or its root is refused. -/
lemma takeOver_safe (hs : s.Regular A t.cache) :
    Ends (t.start (some false)) s (fun _ _ => True) (fun e _ => e.IsRefusal) := by
  refine (root_safe hs).bind ?_
  rintro _ s₁ ⟨-, h₁⟩
  have hs₁ := h₁.regular hs
  simp only [Option.getD_some, Bool.false_eq_true, if_false]
  refine (root_safe hs₁).bind ?_
  rintro root s₂ ⟨-, h₂⟩
  dsimp only
  split
  · exact Ends.of_error rfl ⟨_, rfl⟩
  · exact Ends.map ((view_safe (h₂.regular hs₁) root (t.kind_settled ((h₂.regular hs₁).page_usual _) root)).mono_ok
      fun _ _ _ => trivial)

/-! ### Every call -/

/-- A failure is one that the caller is told of, or else one of those that are named. -/
def Guarded {α : Type} (r : Except Failure α) (named : Failure → Prop) : Prop :=
  ∀ e, r = .error e → e.IsRefusal ∨ named e

omit hR [LinearOrder κ] [Device δ] in
/-- What is known of how a call ends is known of its result. -/
lemma Guarded.of_ends {α : Type} {m : SessionM δ α} {Q : α → Session δ → Prop} {named : Failure → Prop}
    (h : Ends m s Q fun e _ => e.IsRefusal ∨ named e) : Guarded (m s).1 named := by
  rcases hrun : m s with ⟨e | a, s'⟩
  · exact fun e' he' => Except.error.inj he' ▸ h.error hrun
  · exact fun e' he' => by cases he'

/-- Whatever is in the pages of a cache, a call of a tree on it never reads or writes outside a
page. It succeeds, or its caller is told why not, unless the links that it follows from the root
lead in a circle; only a row that makes a tree grow whose level is given as the greatest number
finds no room for the next level, and only a row whose removal empties a root that is the meta page
itself waits for ever. -/
theorem answered_or_refused (hs : s.Regular A t.cache) (row : ρ) :
    Guarded (t.start (some false) s).1 (fun _ => False) ∧
    Guarded (t.find? row s).1 (fun e =>
      e = .endless ∧ Loops (t.Leads (s.array A t.cache) row) (s.array A t.cache)) ∧
    Guarded (t.put row s).1 (fun e =>
      e = .endless ∧ Loops (t.Leads (s.array A t.cache) row) (s.array A t.cache) ∨
      e = .levelOverflow ∧ MetaPage.level ((s.array A t.cache).page 0) = .ok (MetaPage.levelLimit - 1)) ∧
    Guarded (t.remove row s).1 (fun e =>
      e = .endless ∧ Loops (t.Leads (s.array A t.cache) row) (s.array A t.cache) ∨
      e = .stuck ∧ SelfRooted (s.array A t.cache)) ∧
    (∀ (β : Type) (visit : β → ρ → Except Error β) (b : β) (depth : ℕ),
      (s.array A t.cache).count < depth → ∃ b' r, (t.walk visit b depth s).1 = .ok (b', r) ∧
        Guarded r fun e => e = .endless ∧ Loops (t.Links (s.array A t.cache)) (s.array A t.cache)) ∧
    Guarded (t.size s).1 (fun e =>
      e = .endless ∧ Loops (t.Links (s.array A t.cache)) (s.array A t.cache)) := by
  refine ⟨.of_ends (takeOver_safe hs).or_inl,
    .of_ends (find_safe hR hs row), .of_ends (put_safe hR hs row), .of_ends (remove_safe hR hs row),
    fun β visit b depth hdepth => ?_, .of_ends (size_safe hR hs)⟩
  have hwalk := walk_safe hR visit b hs hdepth
  rcases hrun : t.walk visit b depth s with ⟨e | ⟨b', r⟩, s'⟩
  · exact (hwalk.error hrun).elim
  · exact ⟨b', r, rfl, hwalk.ok hrun⟩

end Calls

/-- A new session, with no file at all. -/
lemma blank_regular : Session.blank.Regular MemoryDisk.account numbers.cache :=
  ⟨blank_backed _, by decide⟩

/-- A tree of one full leaf, with the greatest number as its level. -/
def tallest : SessionM MemoryDisk Unit := do
  numbers.start (some true)
  discard <| numbers.put 1
  discard <| numbers.put 2
  edit numbers.cache .metaPage (MetaPage.setLevel (MetaPage.levelLimit - 1))

/-- The tree that is as high as can be said keeps to its cache. -/
lemma tallest_within : Within numbers.cache tallest :=
  (start_within _).bind fun _ => ((put_within numbers_supported.steady 1).map _).bind fun _ =>
    ((put_within numbers_supported.steady 2).map _).bind fun _ => .edit _ (MetaPage.setLevel_steady _)

/-- The id of a meta page that is read as the head of an inner node of `numbers`. -/
def metaNode : PageId := ⟨0x00c9000200000000⟩

/-- A meta page that is an inner node without keys and names itself as the root, above a leaf of
one number. -/
def selfRooted : SessionM MemoryDisk Unit := do
  numbers.start (some true)
  discard <| numbers.put 1
  let leaf ← numbers.root
  edit numbers.cache .metaPage (Node.init numbers.rows.inner metaNode)
  edit numbers.cache .metaPage (Node.setLink numbers.rows.inner 0 leaf)

/-- The tree that is its own root keeps to its cache. -/
lemma selfRooted_within : Within numbers.cache selfRooted :=
  (start_within _).bind fun _ => ((put_within numbers_supported.steady 1).map _).bind fun _ =>
    (root_within _).bind fun leaf => (Within.edit _ (Node.init_steady _ metaNode)).bind fun _ =>
      .edit _ (Node.setLink_steady _ 0 leaf)

/-- A third row makes the one tree grow; taking its only row from the other one never ends. -/
theorem answered_or_refused_exceptions :
    (∃ s : Session MemoryDisk, s.Regular MemoryDisk.account numbers.cache ∧
      (numbers.put 3 s).1 = .error .levelOverflow ∧
      MetaPage.level ((s.array MemoryDisk.account numbers.cache).page 0) = .ok (MetaPage.levelLimit - 1)) ∧
    ∃ s : Session MemoryDisk, s.Regular MemoryDisk.account numbers.cache ∧
      (numbers.remove 1 s).1 = .error .stuck ∧ SelfRooted (s.array MemoryDisk.account numbers.cache) := by
  constructor
  · obtain ⟨s, hs, hfull⟩ : ∃ s : Session MemoryDisk, s.Regular MemoryDisk.account numbers.cache ∧
        (numbers.put 3 s).1 = .error .levelOverflow :=
      ⟨(tallest .blank).2, tallest_within.regular blank_regular, by decide +kernel⟩
    obtain ⟨-, -, hput, -⟩ := answered_or_refused numbers_supported hs 3
    obtain ⟨error, herror⟩ | ⟨herror, -⟩ | ⟨-, hlevel⟩ := hput _ hfull
    · cases herror
    · cases herror
    · exact ⟨s, hs, hfull, hlevel⟩
  · obtain ⟨s, hs, hstuck⟩ : ∃ s : Session MemoryDisk, s.Regular MemoryDisk.account numbers.cache ∧
        (numbers.remove 1 s).1 = .error .stuck :=
      ⟨(selfRooted .blank).2, selfRooted_within.regular blank_regular, by decide +kernel⟩
    obtain ⟨-, -, -, hremove, -⟩ := answered_or_refused numbers_supported hs 1
    obtain ⟨error, herror⟩ | ⟨herror, -⟩ | ⟨-, hroot⟩ := hremove _ hstuck
    · cases herror
    · cases herror
    · exact ⟨s, hs, hstuck, hroot⟩

end Tree

end PageCatalog
