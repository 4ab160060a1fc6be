import Mathlib.Tactic
import PageCatalog.Proofs.Store.Shown
import PageCatalog.Proofs.Tree.OrderedMap
import PageCatalog.Proofs.Tree.Safety

/-!
A damaged page on the way to a row.

All operations of a tree check the header of a page before they use it, and they check all
pages on the way down before they change one. So a page with a header that is not that of
the node is reported, and nothing else has happened by then.

* `Tree.Unfit`: headers that are not those of a node; `kind_of_unfit`.
* `Shape.path`: the nodes on the way to a row, and the rows beside it.
* `Tree.Blocked`: a part of a tree in which the way ends at such a page.
* `Tree.Follows`, `Blocked.follows`: searches of any sort.
* `Blocked.stops`: walks.
* `Tree.corrupted_of_overwritten`: whole trees.
-/

namespace PageCatalog

/-- A page is reported as damaged. -/
def Failure.IsCorrupted (e : Failure) : Prop := ∃ damage, e = .error (.corrupted damage)

/-! ### Headers -/

lemma Node.of_header {p : Page} {h : NodeHeader} (hp : Node.header p = .ok h) :
    Node.tag p = .ok h.tag ∧ Node.version p = .ok h.version ∧ Node.count p = .ok h.count ∧
      Node.self p = .ok h.self := by
  rw [Node.header] at hp
  cases htag : Node.tag p with
  | error e => rw [htag] at hp; cases hp
  | ok tag =>
    cases hversion : Node.version p with
    | error e => rw [htag, hversion] at hp; cases hp
    | ok version =>
      cases hcount : Node.count p with
      | error e => rw [htag, hversion, hcount] at hp; cases hp
      | ok count =>
        cases hself : Node.self p with
        | error e => rw [htag, hversion, hcount, hself] at hp; cases hp
        | ok self =>
          rw [htag, hversion, hcount, hself] at hp
          cases hp
          exact ⟨rfl, rfl, rfl, rfl⟩

/-- The header of a page that begins as a node. -/
lemma Node.Head.exists_header {L : NodeLayout} {id : PageId} {n : ℕ} {p : Page} (h : Node.Head L id n p) :
    ∃ v, Node.header p = .ok ⟨L.tag, v, n, id⟩ := by
  obtain ⟨v, hversion, -⟩ := h.version
  exact ⟨v, by rw [Node.header, h.tag, hversion, h.count, h.self]; rfl⟩

namespace Tree

variable {ρ κ : Type} [LinearOrder κ] {t : Tree ρ} {key : ρ → κ} {id : PageId} {p : Page}

/-- The header of a page is not that of a node reached as `id`: it is of another type, or of
another page, or it is of no known version or counts more keys than there is room for. -/
def Unfit (t : Tree ρ) (id : PageId) (p : Page) : Prop :=
  ∃ h, Node.header p = .ok h ∧
    (h.tag ≠ t.rows.leaf.tag ∧ h.tag ≠ t.rows.inner.tag ∨ h.self ≠ id ∨
      ∃ k, h.tag = (t.layout k).tag ∧ (h.version = 0 ∨ (t.layout k).latest < h.version ∨
        (t.layout k).capacity p.size < h.count))

/-- A page of the type of a kind of nodes undergoes the checks of that kind. -/
lemma kind_of_tag (hR : t.rows.Lawful key) {k : NodeKind} (htag : Node.tag p = .ok (t.layout k).tag)
    (id : PageId) : t.kind id p = t.accept k id p := by
  rw [kind, htag]
  cases k with
  | leaf =>
      simp only [bind, Except.bind, layout, if_pos]
      rfl
  | inner =>
      simp only [bind, Except.bind, layout, if_neg hR.tag_ne.symm, if_pos]
      rfl

/-- Such a page is reported as damaged. -/
theorem kind_of_unfit (hR : t.rows.Lawful key) (hp : t.Unfit id p) :
    ∃ e : Failure, e.IsCorrupted ∧ t.kind id p = .error e := by
  obtain ⟨h, hheader, hbad⟩ := hp
  obtain ⟨htag, hversion, hcount, hself⟩ := Node.of_header hheader
  by_cases hnode : ∃ k, h.tag = (t.layout k).tag
  · obtain ⟨k, hk⟩ := hnode
    rw [hk] at htag
    rw [kind_of_tag hR htag]
    by_cases hv : h.version = 0 ∨ (t.layout k).latest < h.version
    · refine ⟨_, ⟨.pageVersion h.version (t.layout k).tag, rfl⟩, ?_⟩
      simp only [accept, NodeLayout.check, htag, hversion, bind, Except.bind, pure, Except.pure,
        if_neg (not_not.mpr rfl : ¬ (t.layout k).tag ≠ (t.layout k).tag), if_pos hv]
      rfl
    · have hcheck : (t.layout k).check p = .ok () := by
        simp only [NodeLayout.check, htag, hversion, bind, Except.bind, pure, Except.pure,
          if_neg (not_not.mpr rfl : ¬ (t.layout k).tag ≠ (t.layout k).tag), if_neg hv]
      by_cases hid : h.self = id
      · have hmany : (t.layout k).capacity p.size < h.count := by
          obtain ⟨hleaf, hinner⟩ | hne | ⟨k', hk', hrest⟩ := hbad
          · cases k with
            | leaf => exact absurd hk hleaf
            | inner => exact absurd hk hinner
          · exact absurd hid hne
          · -- the two kinds have types of their own
            have hkk : k' = k := by
              have htags := hk'.symm.trans hk
              cases k <;> cases k'
              · rfl
              · exact absurd htags hR.tag_ne.symm
              · exact absurd htags hR.tag_ne
              · rfl
            subst hkk
            tauto
        refine ⟨_, ⟨.keyCount id t.name h.count ((t.layout k).capacity p.size), rfl⟩, ?_⟩
        simp only [accept, hcheck, hself, hid, hcount, bind, Except.bind, pure, Except.pure,
          if_neg (not_not.mpr rfl : ¬ id ≠ id), if_pos hmany]
        rfl
      · refine ⟨_, ⟨.selfId id h.self, rfl⟩, ?_⟩
        simp only [accept, hcheck, hself, bind, Except.bind, if_pos hid]
        rfl
  · have hleaf : h.tag ≠ t.rows.leaf.tag := fun heq => hnode ⟨.leaf, heq⟩
    have hinner : h.tag ≠ t.rows.inner.tag := fun heq => hnode ⟨.inner, heq⟩
    refine ⟨_, ⟨.notANode id t.name h, rfl⟩, ?_⟩
    rw [kind, htag]
    simp only [bind, Except.bind, if_neg hleaf, if_neg hinner, hheader]
    rfl

/-- A search is refused at a page that is not fit. -/
lemma arrive_of_unfit (hR : t.rows.Lawful key) (hp : t.Unfit id p) (row : ρ) :
    ∃ e : Failure, e.IsCorrupted ∧ t.arrive row id p = .error e := by
  obtain ⟨e, he, hkind⟩ := kind_of_unfit hR hp
  exact ⟨e, he, by rw [arrive, hkind]; rfl⟩

/-- A walk is refused at a page that is not fit. -/
lemma content_of_unfit (hR : t.rows.Lawful key) (hp : t.Unfit id p) :
    ∃ e : Failure, e.IsCorrupted ∧ t.content id p = .error e := by
  obtain ⟨e, he, hkind⟩ := kind_of_unfit hR hp
  obtain ⟨h, hheader, -⟩ := hp
  exact ⟨e, he, by rw [content, (Node.of_header hheader).2.2.1, hkind]; rfl⟩

end Tree

/-! ### The way to a row -/

/-- The nodes on the way to a row, each with the rows of the leaves to the left of it. -/
def Shape.path {ρ κ : Type} [LinearOrder κ] (key : ρ → κ) (row : ρ) :
    {h : ℕ} → Shape ρ h → List (PageId × List ρ)
  | 0, leaf id _ => [(id, [])]
  | _ + 1, inner id keys children =>
    let i := Tree.childAt (Rows.place key row keys)
    (id, []) :: (children[i]?.elim [] fun c =>
      (path key row c).map fun e => (e.1, (children.take i).flatMap rows ++ e.2))

/-- The pages on the path to a row are pages of the shape. -/
lemma Shape.index_mem_of_path {ρ κ : Type} [LinearOrder κ] {key : ρ → κ} {row : ρ} {h : ℕ}
    (S : Shape ρ h) {id : PageId} {before : List ρ} (hpath : (id, before) ∈ S.path key row) :
    id.index ∈ S.indexes := by
  induction h generalizing before with
  | zero =>
      obtain ⟨id', rows, rfl⟩ := S.exists_leaf
      obtain ⟨rfl, -⟩ := Prod.mk.inj (List.mem_singleton.mp hpath)
      exact List.mem_singleton.mpr rfl
  | succ h ih =>
      obtain ⟨id', keys, children, rfl⟩ := S.exists_inner
      rcases List.mem_cons.mp hpath with heq | hpath
      · obtain ⟨rfl, -⟩ := Prod.mk.inj heq
        exact List.mem_cons_self
      · cases hc : children[Tree.childAt (Rows.place key row keys)]? with
        | none =>
            rw [hc] at hpath
            exact absurd hpath List.not_mem_nil
        | some c =>
            rw [hc] at hpath
            obtain ⟨⟨id'', before'⟩, hin, heq⟩ := List.mem_map.mp hpath
            obtain ⟨rfl, -⟩ := Prod.mk.inj heq
            exact List.mem_cons_of_mem _ (List.mem_flatMap.mpr ⟨c, List.mem_of_getElem? hc, ih c hin⟩)

namespace Tree

variable {ρ κ δ α β : Type} [LinearOrder κ] [Device δ] {B : Backing δ} {A : Device.Account δ}
  {t : Tree ρ} {key : ρ → κ} {row : ρ} {s s' : Session δ} {h : ℕ} {lo : WithBot κ} {hi : WithTop κ}
  {id : PageId} {before : List ρ}

variable (B t key row) in
/-- A part of a tree in which the way to a row comes to an unfit page. The nodes above that
page are those of the tree, and so is what lies to the left of the way. -/
inductive Blocked (s : Session δ) : {h : ℕ} → Shape ρ h → List ρ → Prop
  | here {h : ℕ} {S : Shape ρ h} {q : Page} (hq : s.Shows B t.cache S.id.index q)
      (hunfit : t.Unfit S.id q) : Blocked s S []
  | link {h : ℕ} {id : PageId} {keys : List ρ} {cb ca : List (Shape ρ h)} {child : Shape ρ h}
      {before : List ρ} {p : Page} (hp : s.Shows B t.cache id.index p)
      (hpage : t.rows.InnerPage id keys ((cb ++ child :: ca).map Shape.id) p)
      (hkeys : Rows.Ascending key keys) (hplace : childAt (Rows.place key row keys) = cb.length)
      (hbefore : ∀ d ∈ cb, d.Stored B t.rows t.cache s) (hchild : Blocked s child before) :
      Blocked s (.inner id keys (cb ++ child :: ca)) (cb.flatMap Shape.rows ++ before)

/-- The way is blocked where a page on it is replaced by an unfit one. -/
theorem blocked_of_path {δ' : Type} [Device δ'] {B' : Backing δ'} {s' : Session δ'} (S : Shape ρ h)
    (hS : S.Stored B t.rows t.cache s) (hordered : S.Ordered key lo hi) (hlo : lo ≤ key row)
    (hhi : key row < hi) (hdistinct : S.indexes.Nodup) (hpath : (id, before) ∈ S.path key row)
    (hsize : s'.size = s.size)
    (hshows : ∀ i ∈ S.indexes, i ≠ id.index → ∀ p, s.Shows B t.cache i p → s'.Shows B' t.cache i p)
    {q : Page} (hq : s'.Shows B' t.cache id.index q) (hunfit : t.Unfit id q) :
    Blocked B' t key row s' S before := by
  -- By induction down the path. Up to the replaced page all nodes are as they were, since no page
  -- comes twice in a shape.
  induction h generalizing lo hi before with
  | zero =>
      obtain ⟨id', rows, rfl⟩ := S.exists_leaf
      obtain ⟨rfl, rfl⟩ := Prod.mk.inj (List.mem_singleton.mp hpath)
      exact .here hq hunfit
  | succ h ih =>
      obtain ⟨id', keys, children, rfl⟩ := S.exists_inner
      obtain ⟨kb, ka, cb, c, ca, rfl, rfl, hroute⟩ := Fenced.exists_route hordered hlo hhi
      rcases List.mem_cons.mp hpath with heq | hpath
      · obtain ⟨rfl, rfl⟩ := Prod.mk.inj heq
        exact .here hq hunfit
      · have hchild : (cb ++ c :: ca)[childAt (Rows.place key row (kb ++ ka))]? = some c := by
          rw [hroute.place]
          simp
        rw [hchild, hroute.place] at hpath
        obtain ⟨⟨id'', before'⟩, hin, heq⟩ := List.mem_map.mp hpath
        obtain ⟨rfl, rfl⟩ := Prod.mk.inj heq
        obtain ⟨lo', hi', hc, hlo', hhi', -⟩ := hroute.child
        obtain ⟨⟨p, hp, -, hpage⟩, hchildren⟩ := hS
        have hbeside := Shape.beside_of_nodup hdistinct
        have hindex := c.index_mem_of_path hin
        rw [List.take_left' rfl]
        refine .link (hshows _ List.mem_cons_self (fun heq => hbeside.above (heq ▸ hindex)) p hp)
          hpage hordered.separators.1 hroute.place (fun d hd => ?_) ?_
        · refine (hchildren d (by simp [hd])).transport hsize fun i hi => hshows i ?_ fun heq => ?_
          · exact List.mem_cons_of_mem _ (List.mem_flatMap.mpr ⟨d, by simp [hd], hi⟩)
          · exact hbeside.others d (by simp [hd]) i hi (heq ▸ hindex)
        · refine ih c (hchildren c (by simp)) hc hlo' hhi' hbeside.distinct hin fun i hi => hshows i ?_
          exact List.mem_cons_of_mem _ (List.mem_flatMap.mpr ⟨c, by simp, hi⟩)

/-! ### Searches -/

/-- No page of a cache changes while a page is asked for something, and what it answers is
what its bytes say. -/
def Tells (A : Device.Account δ) (c : CacheId) (f : PageId → Page → Except Failure α)
    (ask : PageId → SessionM δ α) : Prop :=
  ∀ {B : Backing δ} {s : Session δ} {id : PageId} {p : Page}, s.Backed A c →
    s.Shows B c id.index p →
    Ends (ask id) s
      (fun a s' => f id p = .ok a ∧ s.Quiet B c s' ∧ s.Turns A c (s.array A c) s')
      (fun e s' => (B.Fails e ∨ f id p = .error e) ∧ s.Quiet B c s' ∧ s.Turns A c (s.array A c) s')

/-- Looking at a page tells what is in it, or that it cannot be had. -/
lemma view_tells (c : CacheId) (f : PageId → Page → Except Failure α) :
    Tells A c f fun id => Session.view c id (f id) := by
  intro B s id p hs hp
  have hview : Ends (Session.view c id (f id)) s (fun a s' => f id p = .ok a ∧ s.Quiet B c s')
      (fun e s' => (B.Fails e ∨ f id p = .error e) ∧ s.Quiet B c s') := by
    refine ((Session.frame_ends hp).mono_error fun _ _ h => ⟨.inl h.1, h.2.1⟩).bind ?_
    rintro g s' ⟨hholds, hquiet⟩
    rw [hholds.2.1]
    cases hf : f id p with
    | ok a => exact Ends.of_ok (Session.settle_ok s') ⟨rfl, hquiet⟩
    | error e => exact Ends.of_error rfl ⟨.inr rfl, hquiet⟩
  exact (hview.and (Session.view_turns hs id (f id))).mono (fun _ _ h => ⟨h.1.1, h.1.2, h.2.2.2⟩)
    fun _ _ h => ⟨h.1.1, h.1.2, h.2.2⟩

/-- So does looking at it as if to change it. -/
lemma edit_look_tells (c : CacheId) (f : PageId → Page → Except Failure α) :
    Tells A c f fun id => Session.edit c id (.look (f id)) := by
  intro B s id p hs hp
  have hlook : Ends (Session.edit c id (.look (f id))) s
      (fun a s' => f id p = .ok a ∧ s.Quiet B c s')
      (fun e s' => (B.Fails e ∨ f id p = .error e) ∧ s.Quiet B c s') := by
    refine ((Session.frame_ends hp).mono_error fun _ _ h => ⟨.inl h.1, h.2.1⟩).bind ?_
    rintro g s' ⟨⟨-, hbytes, k, hk, -, hframe⟩, hquiet⟩
    have hquiet' := hquiet.trans (Session.quiet_withFrame (B := B) hk hframe
      (f := { g with bytes := g.bytes, dirty := true }) rfl rfl)
    rw [← hbytes] at *
    rw [PageM.runOn, PageM.look]
    refine Ends.bind_ok (Session.putFrame_run c id.index _ s') ?_
    cases hf : f id g.bytes with
    | ok a => exact Ends.of_ok (Session.settle_ok _) ⟨rfl, hquiet'⟩
    | error e => exact Ends.of_error rfl ⟨.inr rfl, hquiet'⟩
  have hturns := Session.edit_turns hs id (PageM.steady_look (f id))
  simp only [PageM.look, PageArray.set_page] at hturns
  exact (hlook.and hturns).mono (fun _ _ h => ⟨h.1.1, h.1.2, h.2.2.2⟩)
    fun _ _ h => ⟨h.1.1, h.1.2, h.2.elim (fun h => h.2) fun h => h.2.2⟩

/-- A computation follows the links for a row: it first asks a page what the search meets
there, and then goes on with the child that the search is led to. -/
structure Follows (A : Device.Account δ) (t : Tree ρ) (row : ρ) (f : ℕ → PageId → SessionM δ α) :
    Prop where
  step : ∃ ask, Tells A t.cache (t.arrive row) ask ∧ ∀ n id, ∃ rest : Arrival → SessionM δ α,
    f (n + 1) id = ask id >>= rest ∧ ∀ i child, ∃ k, rest (.inner i child) = f n child >>= k

lemma findFrom_follows (t : Tree ρ) (row : ρ) : Follows A t row (t.findFrom row) where
  step := ⟨_, view_tells t.cache (t.arrive row),
    fun _ _ => ⟨_, rfl, fun _ _ => ⟨pure, (bind_pure _).symm⟩⟩⟩

lemma putFrom_follows (t : Tree ρ) (row : ρ) : Follows A t row (t.putFrom row) where
  step := ⟨_, edit_look_tells t.cache (t.arrive row),
    fun _ _ => ⟨_, rfl, fun _ _ => ⟨_, rfl⟩⟩⟩

lemma removeFrom_follows (t : Tree ρ) (row : ρ) : Follows A t row (t.removeFrom row) where
  step := ⟨_, edit_look_tells t.cache (t.arrive row),
    fun _ _ => ⟨_, rfl, fun _ _ => ⟨_, rfl⟩⟩⟩

/-- Whatever follows the links for a row reports the page that blocks the way, and has changed
nothing. -/
theorem Blocked.follows (hR : t.rows.Lawful key) {S : Shape ρ h}
    (hS : Blocked B t key row s S before) {f : ℕ → PageId → SessionM δ α} (hf : Follows A t row f)
    (hquiet : s.Quiet B t.cache s') (hs : s'.Backed A t.cache) {n : ℕ} (hn : h < n) :
    Ends (f n S.id) s' (fun _ _ => False)
      (fun e s'' => (B.Fails e ∨ e.IsCorrupted) ∧ s'.Turns A t.cache (s'.array A t.cache) s'') := by
  obtain ⟨ask, hask, hstep⟩ := hf.step
  -- the way is the one that was blocked in `s`, however far the search has come
  induction hS generalizing s' n with
  | @here h S q hq hunfit =>
      obtain ⟨n, rfl⟩ := Nat.exists_eq_succ_of_ne_zero (Nat.ne_zero_of_lt hn)
      obtain ⟨rest, hrest, -⟩ := hstep n S.id
      obtain ⟨e, he, harrive⟩ := arrive_of_unfit hR hunfit row
      rw [hrest]
      refine ((hask hs (hquiet.shows hq)).mono_error ?_).bind ?_
      · rintro e' s'' ⟨hfails | heq, -, hturns⟩
        · exact ⟨.inl hfails, hturns⟩
        · rw [harrive] at heq
          cases heq
          exact ⟨.inr he, hturns⟩
      · rintro a s'' ⟨heq, -⟩
        rw [harrive] at heq
        cases heq
  | @link h id keys cb ca child before p hp hpage hkeys hplace hbefore hchild ih =>
      obtain ⟨n, rfl⟩ := Nat.exists_eq_succ_of_ne_zero (Nat.ne_zero_of_lt hn)
      obtain ⟨rest, hrest, hinner⟩ := hstep n id
      have harrive := arrive_child hR hpage hkeys hplace
      rw [Shape.id_inner, hrest]
      refine ((hask hs (hquiet.shows hp)).mono_error ?_).bind ?_
      · rintro e s'' ⟨hfails | heq, -, hturns⟩
        · exact ⟨.inl hfails, hturns⟩
        · rw [harrive] at heq
          cases heq
      · rintro a s'' ⟨heq, hquiet', hturns⟩
        rw [harrive] at heq
        cases heq
        obtain ⟨k, hk⟩ := hinner cb.length child.id
        rw [hk]
        refine ((ih (hquiet.trans hquiet') hturns.backed (by omega)).mono_error ?_).bind
          fun _ _ h => h.elim
        exact fun _ _ h => ⟨h.1, hturns.stay h.2⟩

/-! ### Walks -/

section Walk

variable {visit : β → ρ → Except Error β}

/-- A walk that comes to a damaged page behind some rows: unless the visitor refuses one of
them, it has met all of them, and the page is reported. -/
def Stops (visit : β → ρ → Except Error β) (m : WalkM δ β Unit) (b : β) (s : Session δ)
    (B : Backing δ) (before : List ρ) : Prop :=
  Ends m (b, s) (fun _ _ => False)
    (fun e s' => B.Fails e ∨
      (∃ error, e = .error error ∧ Rows.visit visit b before = (s'.1, .error error)) ∨
      e.IsCorrupted ∧ Rows.visit visit b before = (s'.1, .ok ()))

/-- A walk through some rows and then to a damaged page. -/
lemma Walks.stops {m : WalkM δ β Unit} {m' : Unit → WalkM δ β Unit} {b : β} {c : CacheId}
    {rows before : List ρ} (hm : Walks visit m b s c B rows)
    (hm' : ∀ b' s', s.Quiet B c s' → Stops visit (m' ()) b' s' B before) :
    Stops visit (m >>= m') b s B (rows ++ before) := by
  refine (hm.mono_error ?_).bind ?_
  · rintro e s' (hfails | ⟨⟨error, rfl, hvisit⟩, -⟩)
    · exact .inl hfails
    · exact .inr (.inl ⟨error, rfl, by rw [Rows.visit_append, hvisit]⟩)
  · rintro - ⟨b', s'⟩ ⟨hvisit, hquiet⟩
    refine (hm' b' s' hquiet).mono_error ?_
    rintro e s'' (hfails | ⟨error, rfl, hvisit'⟩ | ⟨he, hvisit'⟩)
    · exact .inl hfails
    · exact .inr (.inl ⟨error, rfl, by rw [Rows.visit_append, hvisit]; exact hvisit'⟩)
    · exact .inr (.inr ⟨he, by rw [Rows.visit_append, hvisit]; exact hvisit'⟩)

/-- What is done after a walk that stops is not done. -/
lemma Stops.bind {m : WalkM δ β Unit} {b : β} (hm : Stops visit m b s B before)
    (m' : Unit → WalkM δ β Unit) : Stops visit (m >>= m') b s B before :=
  Ends.bind hm fun _ _ h => h.elim

/-- A walk reports the page that blocks the way to a row, and has met the rows to the left. -/
theorem Blocked.stops (hR : t.rows.Lawful key) {S : Shape ρ h}
    (hS : Blocked B t key row s S before) (hquiet : s.Quiet B t.cache s') (b : β) {n : ℕ}
    (hn : h < n) : Stops visit (t.walkFrom visit n S.id) b s' B before := by
  induction hS generalizing s' b n with
  | @here h S q hq hunfit =>
      obtain ⟨n, rfl⟩ := Nat.exists_eq_succ_of_ne_zero (Nat.ne_zero_of_lt hn)
      obtain ⟨e, he, hcontent⟩ := content_of_unfit hR hunfit
      have hview : Ends (Session.view t.cache S.id (t.content S.id)) s' (fun _ _ => False)
          (fun e' _ => B.Fails e' ∨ e' = e) := by
        refine ((Session.frame_ends (hquiet.shows hq)).mono_error fun _ _ h => .inl h.1).bind ?_
        rintro g s'' ⟨hholds, -⟩
        rw [hholds.2.1, hcontent]
        exact Ends.of_error rfl (.inr rfl)
      rcases hrun : Session.view t.cache S.id (t.content S.id) s' with ⟨e' | a, s''⟩
      · have hend : (during (Session.view t.cache S.id (t.content S.id)) : WalkM δ β _) (b, s')
            = (.error e', (b, s'')) := by
          rw [during]
          simp only [hrun]
        refine Ends.of_error (run_bind_error hend _) ((hview.error hrun).imp_right ?_)
        rintro rfl
        exact .inr ⟨he, rfl⟩
      · exact (hview.ok hrun).elim
  | @link h id keys cb ca child before p hp hpage hkeys hplace hbefore hchild ih =>
      obtain ⟨n, rfl⟩ := Nat.exists_eq_succ_of_ne_zero (Nat.ne_zero_of_lt hn)
      refine Ends.bind (during_view_ends (hquiet.shows hp) (t.content_inner hR hpage) b).or_inl ?_
      rintro _ ⟨b', s''⟩ ⟨rfl, rfl, hquiet'⟩
      -- the children to the left, one after the other
      have hwalk : ∀ (cs : List (Shape ρ h)) (b : β) (s₁ : Session δ), s.Quiet B t.cache s₁ →
          (∀ d ∈ cs, d.Stored B t.rows t.cache s) →
          Stops visit (((cs ++ child :: ca).map Shape.id).forM (t.walkFrom visit n)) b s₁ B
            (cs.flatMap Shape.rows ++ before) := by
        intro cs
        induction cs with
        | nil => exact fun b s₁ hquiet₁ _ => (ih hquiet₁ b (by omega)).bind _
        | cons c cs ihcs =>
            intro b s₁ hquiet₁ hcs
            rw [List.flatMap_cons, List.append_assoc]
            refine (walkFrom_walks hR c ((hcs c List.mem_cons_self).quiet hquiet₁) b
              (by omega)).stops fun b' s₂ hquiet₂ => ?_
            exact ihcs b' s₂ (hquiet₁.trans hquiet₂) fun d hd => hcs d (List.mem_cons_of_mem _ hd)
      exact hwalk cb b' s'' (hquiet.trans hquiet') hbefore

end Walk

/-! ### Whole trees -/

/-- A computation reports a damaged page, and no page of any cache has changed, nor how many
pages there are and which are freed, nor a file. -/
def Reports (A : Device.Account δ) (m : SessionM δ α) (s : Session δ) : Prop :=
  ∃ damage s', m s = (.error (.error (.corrupted damage)), s') ∧
    A.bytes s'.device = A.bytes s.device ∧ ∀ c, s'.array A c = s.array A c

variable (A) in
/-- A session that has the pages that another one has, but for that of one node. -/
structure Overwritten (t : Tree ρ) (id : PageId) (q : Page) (s s' : Session δ) : Prop where
  backed : s'.Backed A t.cache
  isOpen : ∃ k, s'.store.caches[t.cache]? = some k
  size : s'.size = s.size
  array : s'.array A t.cache = (s.array A t.cache).set id.index q

variable {folder : String} {own : Set String} {V : A.Service folder own} {T : TreeShape ρ} {q : Page}

/-- A computation that ends with a damaged page, if the device serves, reports it. -/
lemma reports_of_ends {m : SessionM δ α} {c : CacheId}
    (h : Ends m s (fun _ _ => False) (fun e s' => ((Backing.served V).Fails e ∨ e.IsCorrupted) ∧
      s.Turns A c (s.array A c) s')) : Reports A m s := by
  rcases hrun : m s with ⟨e | a, s'⟩
  · obtain ⟨hfails | ⟨damage, rfl⟩, hturns⟩ := h.error hrun
    · exact (Backing.served_not_fails e hfails).elim
    · refine ⟨damage, s', hrun, hturns.files, fun c' => ?_⟩
      by_cases hc : c' = c
      · rw [hc, hturns.array]
      · exact (hturns.other hc).array
  · exact (h.ok hrun).elim

/-- The meta page leads to a part of a tree in which the way to a row is blocked. -/
structure HoldsBlocked (B : Backing δ) (t : Tree ρ) (key : ρ → κ) (row : ρ) (s : Session δ)
    (T : TreeShape ρ) (before : List ρ) : Prop where
  root : ∃ p, s.Shows B t.cache 0 p ∧ MetaPage.Leads T.top.id T.height p
  blocked : Blocked B t key row s T.top before
  next : ∃ n, s.next? t.cache = some n ∧ T.height < n

/-- The way to a row is blocked where the page of a node on it is overwritten. -/
lemma Holds.blocked (hT : t.Holds (.served V) s T) (hordered : T.Ordered key)
    (hs : s.Backed A t.cache) (hpath : (id, before) ∈ T.top.path key row)
    (hover : Overwritten A t id q s s') (hready : V.Ready s'.device) (hunfit : t.Unfit id q) :
    HoldsBlocked (.served V) t key row s' T before := by
  obtain ⟨n, hn⟩ := hT.exists_next
  obtain ⟨k, hk, rfl⟩ := Option.map_eq_some_iff.mp hn
  obtain ⟨k', hk'⟩ := hover.isOpen
  have hcount : k'.next = k.next := by
    have heq := congrArg PageArray.count hover.array
    rw [PageArray.count_set, Session.array_open hk', Session.array_open hk] at heq
    exact heq
  have hindex := T.top.index_mem_of_path hpath
  -- All pages but one show in the new session what they showed in the old one.
  have hshows : ∀ i, i ≠ id.index → ∀ p, s.Shows (.served V) t.cache i p →
      s'.Shows (.served V) t.cache i p := by
    intro i hi p hp
    obtain ⟨hhas, rfl⟩ := hp.has hs
    have hhas' : (s'.array A t.cache).Has i := by
      rw [hover.array]
      exact hhas
    have hpage := Session.shows_of_has (V := V) hover.backed hready hk' hhas'
    rwa [hover.array, PageArray.page_set_of_ne hi] at hpage
  have hq : s'.Shows (.served V) t.cache id.index q := by
    obtain ⟨p, hp⟩ := hT.stored.exists_shows hindex
    have hhas : (s'.array A t.cache).Has id.index := by
      rw [hover.array]
      exact (hp.has hs).1
    have hpage := Session.shows_of_has (V := V) hover.backed hready hk' hhas
    rwa [hover.array, PageArray.page_set_self] at hpage
  obtain ⟨m, hm, hleads⟩ := hT.root
  have hheight := hT.height_lt hordered hn
  refine ⟨⟨m, hshows 0 (fun heq => hT.meta_notMem (heq ▸ hindex)) m hm, hleads⟩, ?_, k'.next,
    by rw [Session.next?, hk']; rfl, by omega⟩
  exact blocked_of_path T.top hT.stored hordered bot_le (WithTop.coe_lt_top _) hT.distinct hpath
    hover.size (fun i _ => hshows i) hq hunfit

section HoldsBlocked

variable (hR : t.rows.Lawful key) (hT : HoldsBlocked (.served V) t key row s T before)
  (hs : s.Backed A t.cache)
include hT hs

/-- The meta page still leads to the root. -/
lemma HoldsBlocked.root_ends :
    Ends t.root s (fun r s' => r = T.top.id ∧ s.Quiet (.served V) t.cache s' ∧
        s.Turns A t.cache (s.array A t.cache) s')
      (fun _ _ => False) := by
  obtain ⟨m, hm, hleads⟩ := hT.root
  refine (view_tells t.cache (fun _ => MetaPage.root) hs hm).mono ?_ ?_
  · rintro r s' ⟨hroot, hquiet, hturns⟩
    exact ⟨(Except.ok.inj (hleads.root.symm.trans hroot)).symm, hquiet, hturns⟩
  · rintro e s' ⟨hfails | hroot, -⟩
    · exact Backing.served_not_fails e hfails
    · cases hleads.root.symm.trans hroot

include hR

/-- A search reports the page that it cannot get past. -/
lemma HoldsBlocked.find_reports : Reports A (t.find? row) s := by
  obtain ⟨n, hn, hlt⟩ := hT.next
  refine reports_of_ends (V := V) (c := t.cache) (Ends.bind_ok (reach_run hn) ?_)
  refine ((hT.root_ends hs).mono_error fun _ _ h => h.elim).bind ?_
  rintro _ s₁ ⟨rfl, hquiet, hturns⟩
  refine (hT.blocked.follows hR (findFrom_follows t row) hquiet hturns.backed
    (show T.height < n + 1 by omega)).mono (fun _ _ h => h.elim) ?_
  exact fun _ _ h => ⟨h.1, hturns.stay h.2⟩

/-- A computation that begins at the root to follow the links for a row. -/
lemma HoldsBlocked.follows_reports {f : ℕ → PageId → SessionM δ α} (hf : Follows A t row f)
    (rest : PageId → α → SessionM δ β) :
    Reports A (do let root ← t.root; let r ← f (← t.reach) root; rest root r) s := by
  obtain ⟨n, hn, hlt⟩ := hT.next
  refine reports_of_ends (V := V) (c := t.cache)
    (((hT.root_ends hs).mono_error fun _ _ h => h.elim).bind ?_)
  rintro _ s₁ ⟨rfl, hquiet, hturns⟩
  refine Ends.bind_ok (reach_run (hquiet.next.trans hn)) (((hT.blocked.follows hR hf hquiet
    hturns.backed (show T.height < n + 1 by omega)).mono_error ?_).bind
      fun _ _ h => h.elim)
  exact fun _ _ h => ⟨h.1, hturns.stay h.2⟩

/-- An insertion reports it before anything has changed. -/
lemma HoldsBlocked.put_reports (hfits : t.rows.fits row = .ok ()) : Reports A (t.put row) s := by
  rw [put, hfits]
  exact hT.follows_reports hR hs (putFrom_follows t row) _

/-- A removal reports it before anything has changed. -/
lemma HoldsBlocked.remove_reports : Reports A (t.remove row) s :=
  hT.follows_reports hR hs (removeFrom_follows t row) _

omit hs in
/-- A walk whose visitor takes all rows to the left of the page. -/
lemma HoldsBlocked.walk_reports {visit : β → ρ → Except Error β} {b b' : β}
    (hvisit : Rows.visit visit b before = (b', .ok ())) :
    ∃ damage s', (do t.walk visit b (← t.reach)) s
      = (.ok (b', .error (.error (.corrupted damage))), s') := by
  obtain ⟨n, hn, hlt⟩ := hT.next
  obtain ⟨m, hm, hleads⟩ := hT.root
  have hstops : Stops visit (do t.walkFrom visit (n + 1) (← during t.root)) b s (.served V) before := by
    refine Ends.bind (during_view_ends hm hleads.root b).or_inl ?_
    rintro _ ⟨b₁, s₁⟩ ⟨rfl, rfl, hquiet⟩
    exact hT.blocked.stops hR hquiet b₁ (show T.height < n + 1 by omega)
  rcases hrun : (do t.walkFrom visit (n + 1) (← during t.root) : WalkM δ β Unit) (b, s)
    with ⟨e | ⟨⟩, b₁, s₁⟩
  · have hend : (do t.walk visit b (← t.reach)) s = (.ok (b₁, .error e), s₁) := by
      rw [run_bind_ok (reach_run hn), walk, hrun]
    obtain hfails | ⟨error, -, hvisit'⟩ | ⟨⟨damage, rfl⟩, hvisit'⟩ := hstops.error hrun
    · exact (Backing.served_not_fails e hfails).elim
    · rw [hvisit] at hvisit'
      cases hvisit'
    · rw [hvisit] at hvisit'
      cases hvisit'
      exact ⟨damage, s₁, hend⟩
  · exact (hstops.ok hrun).elim

end HoldsBlocked

/-- On the way to a row, a page whose header is not that of its node is reported by a lookup,
by a put and by a removal of the row, and nothing has changed. A walk reports it too, and has
shown the rows of the leaves to the left of it, as far as the visitor takes them. -/
theorem corrupted_of_overwritten (hR : t.rows.Lawful key) (hs : s.Backed A t.cache)
    (hT : t.Holds (.served V) s T) (hordered : T.Ordered key)
    (hpath : (id, before) ∈ T.top.path key row) (hover : Overwritten A t id q s s')
    (hready : V.Ready s'.device) (hunfit : t.Unfit id q) :
    Reports A (t.find? row) s' ∧ (t.rows.fits row = .ok () → Reports A (t.put row) s') ∧
      Reports A (t.remove row) s' ∧
      ∀ {β : Type} (visit : β → ρ → Except Error β) (b b' : β),
        Rows.visit visit b before = (b', .ok ()) →
        ∃ damage s'', (do t.walk visit b (← t.reach)) s'
          = (.ok (b', .error (.error (.corrupted damage))), s'') := by
  have hblocked := hT.blocked hordered hs hpath hover hready hunfit
  exact ⟨hblocked.find_reports hR hover.backed, hblocked.put_reports hR hover.backed,
    hblocked.remove_reports hR hover.backed,
    fun _ _ _ hvisit => hblocked.walk_reports hR hvisit⟩

/-- A count that there is no room for makes the page of a node unfit. -/
lemma unfit_of_setCount {k : NodeKind} {n m : ℕ} (hp : Node.Head (t.layout k) id n p)
    (hm : m < 256 ^ 2) (hsize : 24 ≤ p.size) (hmany : (t.layout k).capacity p.size < m) :
    t.Unfit id (Node.setCount m p).2 := by
  obtain ⟨q, hrun, hsame, hq⟩ := Node.exists_setCount hp hm hsize
  obtain ⟨v, hheader⟩ := hq.exists_header
  rw [hrun]
  exact ⟨_, hheader, .inr (.inr ⟨k, rfl, .inr (.inr (hsame.size ▸ hmany))⟩)⟩

/-- A page that is edited is overwritten. -/
lemma overwritten_of_edit {m : PageM α} {r : α} (hs : s.Backed A t.cache) (hm : m.Steady)
    (h : Session.edit t.cache id m s = (.ok r, s')) (hopen : ∃ k, s'.store.caches[t.cache]? = some k) :
    Overwritten A t id (m ((s.array A t.cache).page id.index)).2 s s' := by
  obtain ⟨-, -, hturns⟩ := (Session.edit_turns hs id hm).ok h
  exact ⟨hturns.backed, hopen, hturns.size, hturns.array⟩

/-- A put that comes to its end leaves the shape that is computed for it. -/
lemma Holds.of_put {T T' : TreeShape ρ} {row : ρ} {old : Option ρ} {size n n' : ℕ}
    (hR : t.rows.Lawful key) (hroomy : t.rows.Roomy size) (hT : t.Holds B s T) (hproper : T.Proper key)
    (hsize : s.size = size) (hn : s.next? t.cache = some n) (hput : t.put row s = (.ok old, s'))
    (hgrown : T.put t.rows key size row n = ⟨some none, T', n'⟩) :
    t.Holds B s' T' ∧ T'.Proper key ∧ s'.size = size ∧ s'.next? t.cache = some n' := by
  obtain rfl := hsize
  obtain ⟨-, hold, hholds, hkeeps, hnext⟩ := (hT.put_ends hR hroomy hproper.ordered row hn).ok hput
  have hproper' := (TreeShape.put_insert t.rows hroomy hproper hold).1
  rw [hgrown] at hholds hnext hproper'
  exact ⟨hholds, hproper', hkeeps.size, hnext⟩

/-- The second leaf of a tree of three numbers claims to hold three of them, and has room for
two. The numbers of the first leaf are still shown. -/
theorem corrupted_of_count :
    ∃ s s' : Session MemoryDisk, (numbers.toList s).1 = .ok [3, 5, 7] ∧
      Session.edit 1 (numbers.rows.nodeId 2) (Node.setCount 3) s = (.ok (), s') ∧
      Reports MemoryDisk.account (numbers.find? 7) s' ∧ Reports MemoryDisk.account (numbers.put 7) s' ∧
      Reports MemoryDisk.account (numbers.remove 7) s' ∧
      ∃ damage s'', (do numbers.walk (fun seen row => .ok (seen ++ [row])) [] (← numbers.reach)) s'
        = (.ok ([3, 5], .error (.error (.corrupted damage))), s'') := by
  have hR : numbers.rows.Lawful RowFormat.keyOrder := numbers_supported.lawful
  -- the sessions are hidden, so that nothing evaluates them again
  obtain ⟨s₀, s₁, s₂, s, s', hstart, ⟨_, hput₁⟩, ⟨_, hput₂⟩, ⟨_, hput₃⟩, hnext, hsize, hlist, hedit,
      hopen⟩ :
      ∃ s₀ s₁ s₂ s s' : Session MemoryDisk, numbers.start (some true) .blank = (.ok (), s₀) ∧
        (∃ old, numbers.put 7 s₀ = (.ok old, s₁)) ∧ (∃ old, numbers.put 3 s₁ = (.ok old, s₂)) ∧
        (∃ old, numbers.put 5 s₂ = (.ok old, s)) ∧ s₀.next? 1 = some 2 ∧ s₀.size = 512 ∧
        (numbers.toList s).1 = .ok [3, 5, 7] ∧
        Session.edit 1 (numbers.rows.nodeId 2) (Node.setCount 3) s = (.ok (), s') ∧
        (s'.store.caches[numbers.cache]?).isSome = true := by
    have hruns :
        let s₀ : Session MemoryDisk := (numbers.start (some true) .blank).2
        let s₁ := (numbers.put 7 s₀).2
        let s₂ := (numbers.put 3 s₁).2
        let s := (numbers.put 5 s₂).2
        let damaged := Session.edit 1 (numbers.rows.nodeId 2) (Node.setCount 3) s
        (numbers.start (some true) (.blank : Session MemoryDisk)).1.isOk = true ∧
          (numbers.put 7 s₀).1.isOk = true ∧ (numbers.put 3 s₁).1.isOk = true ∧
          (numbers.put 5 s₂).1.isOk = true ∧ s₀.next? 1 = some 2 ∧ s₀.size = 512 ∧
          (numbers.toList s).1 = .ok [3, 5, 7] ∧ damaged.1.isOk = true ∧
          (damaged.2.store.caches[numbers.cache]?).isSome = true := by
      decide +kernel
    obtain ⟨hstart, hput₁, hput₂, hput₃, hnext, hsize, hlist, hedit, hopen⟩ := hruns
    obtain ⟨⟨⟩, hstart⟩ := run_of_isOk hstart
    obtain ⟨_, hput₁⟩ := run_of_isOk hput₁
    obtain ⟨_, hput₂⟩ := run_of_isOk hput₂
    obtain ⟨_, hput₃⟩ := run_of_isOk hput₃
    obtain ⟨⟨⟩, hedit⟩ := run_of_isOk hedit
    exact ⟨_, _, _, _, _, hstart, ⟨_, hput₁⟩, ⟨_, hput₂⟩, ⟨_, hput₃⟩, hnext, hsize, hlist, hedit, hopen⟩
  obtain ⟨k, hk⟩ := Option.isSome_iff_exists.mp hopen
  -- the tree has one shape after the other
  obtain ⟨n, hn, hT₀⟩ := start_new hR (by decide) hstart
  obtain rfl : 1 = n := Nat.succ.inj (Option.some.inj (hnext.symm.trans hn))
  let id := numbers.rows.nodeId
  have hroomy : numbers.rows.Roomy 512 := numbers_supported.roomy (by decide)
  obtain ⟨hT₁, hproper₁, hsize₁, hnext₁⟩ := hT₀.of_put hR hroomy
    ⟨⟨List.Pairwise.nil, by simp⟩, fun hne => absurd rfl hne, trivial⟩ hsize hnext hput₁
    (show _ = (⟨some none, ⟨0, .leaf (id 1) [7]⟩, 2⟩ : TreeGrown UInt64) from rfl)
  obtain ⟨hT₂, hproper₂, hsize₂, hnext₂⟩ := hT₁.of_put hR hroomy hproper₁ hsize₁ hnext₁ hput₂
    (show _ = (⟨some none, ⟨0, .leaf (id 1) [3, 7]⟩, 2⟩ : TreeGrown UInt64) from rfl)
  obtain ⟨hT, hproper, hsize₃, -⟩ := hT₂.of_put hR hroomy hproper₂ hsize₂ hnext₂ hput₃
    (show _ = (⟨some none, ⟨1, .inner (id 3) [7] [.leaf (id 1) [3, 5], .leaf (id 2) [7]]⟩, 4⟩ :
      TreeGrown UInt64) from rfl)
  -- it is in the array of its cache
  have hs₀ := (start_within (some true)).backed (Session.blank_backed numbers.cache) hstart
  have hs₁ := (put_within numbers_supported.steady 7).backed hs₀ hput₁
  have hs₂ := (put_within numbers_supported.steady 3).backed hs₁ hput₂
  have hs := (put_within numbers_supported.steady 5).backed hs₂ hput₃
  have hserved : numbers.Holds (.served (MemoryDisk.service "" ∅)) s _ :=
    hT.transport rfl fun _ _ _ hp => (Session.shows_none.mp hp).shows
  -- the damaged page is that of the second leaf
  obtain ⟨⟨_, -, -, -⟩, hchildren⟩ := hserved.stored
  obtain ⟨p, hp, hpsize, hpage⟩ := hchildren (.leaf (id 2) [7]) (by simp)
  obtain ⟨-, rfl⟩ := hp.has hs
  have hunfit := unfit_of_setCount (t := numbers) (k := .leaf) (m := 3) hpage.head (by decide)
    (by rw [hpsize, hsize₃]; decide) (by rw [hpsize, hsize₃]; decide)
  have hover := overwritten_of_edit (t := numbers) hs (Node.setCount_steady 3) hedit ⟨k, hk⟩
  have hpath : (id 2, [3, 5]) ∈ Shape.path RowFormat.keyOrder 7
      (.inner (id 3) [7] [.leaf (id 1) [3, 5], .leaf (id 2) [7]] : Shape UInt64 1) :=
    .tail _ (.head _)
  obtain ⟨hfind, hput, hremove, hwalk⟩ :=
    corrupted_of_overwritten hR hs hserved hproper.ordered hpath hover trivial hunfit
  exact ⟨s, s', hlist, hedit, hfind, hput rfl, hremove, hwalk _ _ _ rfl⟩

end Tree

end PageCatalog
