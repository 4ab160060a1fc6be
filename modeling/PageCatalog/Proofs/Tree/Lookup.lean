import Mathlib.Tactic
import PageCatalog.Tree.Find
import PageCatalog.Tree.Walk
import PageCatalog.Proofs.Tree.Stored

/-!
Reading a held tree.

A lookup follows the links that the separators of the shape point out, and a walk goes
through the leaves of the shape from left to right. Neither changes what the session
shows, and both fail only where the device does.

* `Tree.Holds.find_ends`: a lookup finds what the map of the rows has.
* `Tree.Holds.walk_ends`: a visitor meets the rows in order, up to its first refusal.
* `Tree.Holds.toList_ends`, `Tree.Holds.size_ends`.
-/

namespace PageCatalog

namespace Tree

variable {ρ κ δ : Type} [LinearOrder κ] [Device δ] {B : Backing δ} {t : Tree ρ} {key : ρ → κ}
  {s : Session δ} {h : ℕ} {lo : WithBot κ} {hi : WithTop κ} {T : TreeShape ρ}

/-! ### Looking up -/

/-- Following the links from a stored shape. -/
lemma findFrom_ends (hR : t.rows.Lawful key) (S : Shape ρ h) (hS : S.Stored B t.rows t.cache s)
    (hordered : S.Ordered key lo hi) (row : ρ) (hlo : lo ≤ key row) (hhi : key row < hi) {n : ℕ}
    (hn : h < n) :
    Ends (t.findFrom row n S.id) s
      (fun r s' => r = Rows.lookup key row S.rows ∧ s.Quiet B t.cache s')
      (fun e s' => B.Fails e ∧ s.Quiet B t.cache s') := by
  obtain ⟨n, rfl⟩ := Nat.exists_eq_succ_of_ne_zero (Nat.ne_zero_of_lt hn)
  -- By induction on the height. Pages that had to be loaded change nothing that is shown, so the
  -- hypothesis serves in the session of the child.
  induction h generalizing s lo hi n with
  | zero =>
      obtain ⟨id, rows, rfl⟩ := S.exists_leaf
      obtain ⟨p, hp, hsize, hpage⟩ := hS
      refine (Session.view_ends hp (t.arrive_leaf hR hpage hordered.1 row)).bind ?_
      rintro _ s' ⟨rfl, hquiet, hmemory⟩
      cases hat : Rows.place key row rows with
      | gap i =>
          obtain ⟨-, hlookup, -⟩ := hordered.1.of_gap hat
          exact Ends.of_ok rfl ⟨hlookup.symm, hquiet⟩
      | found i =>
          obtain ⟨r, hr, hlookup, -⟩ := hordered.1.of_found hat
          have hrun : Session.view t.cache id (t.rows.loadSlot t.rows.leaf i) s' = (.ok r, s') := by
            rw [Session.view_memory hmemory, hpage.slots i r hr]
          exact Ends.map (Ends.of_ok hrun ⟨hlookup.symm, hquiet⟩)
  | succ h ih =>
      obtain ⟨id, keys, children, rfl⟩ := S.exists_inner
      obtain ⟨⟨p, hp, hsize, hpage⟩, hchildren⟩ := hS
      have hseparators := hordered.separators.1
      obtain ⟨kb, ka, cb, c, ca, rfl, rfl, hroute⟩ := Fenced.exists_route hordered hlo hhi
      refine (Session.view_ends hp (arrive_child hR hpage hseparators hroute.place)).bind ?_
      rintro _ s' ⟨rfl, hquiet, -⟩
      obtain ⟨lo', hi', hc, hlo', hhi', -⟩ := hroute.child
      have hstored := (hchildren c (by simp)).quiet hquiet
      obtain ⟨n, rfl⟩ := Nat.exists_eq_succ_of_ne_zero (show n ≠ 0 by omega)
      refine (ih c hstored hc hlo' hhi' n (by omega)).mono ?_ ?_
      · rintro r s'' ⟨rfl, hquiet'⟩
        refine ⟨?_, hquiet.trans hquiet'⟩
        have hrows : (Shape.inner id (kb ++ ka) (cb ++ c :: ca)).rows
            = cb.flatMap Shape.rows ++ c.rows ++ ca.flatMap Shape.rows := by
          simp
        rw [hrows, (Shape.route_around hroute).lookup]
      · exact fun e s'' h => ⟨h.1, hquiet.trans h.2⟩

/-- A lookup in a held tree finds what the map of its rows has. -/
theorem Holds.find_ends (hR : t.rows.Lawful key) (hT : t.Holds B s T) (hordered : T.Ordered key)
    (row : ρ) :
    Ends (t.find? row) s (fun r s' => r = Rows.lookup key row T.rows ∧ s.Quiet B t.cache s')
      (fun e s' => B.Fails e ∧ s.Quiet B t.cache s') := by
  obtain ⟨n, hn⟩ := hT.exists_next
  refine Ends.bind_ok (reach_run hn) (hT.root_ends.bind ?_)
  rintro _ s' ⟨rfl, hquiet⟩
  have hlt := hT.height_lt hordered hn
  refine (findFrom_ends hR T.top (hT.stored.quiet hquiet) hordered row bot_le
    (WithTop.coe_lt_top _) (by omega)).mono ?_ ?_
  · exact fun r s'' h => ⟨h.1, hquiet.trans h.2⟩
  · exact fun e s'' h => ⟨h.1, hquiet.trans h.2⟩

/-! ### Walking -/

section Walk

variable {β : Type} (visit : β → ρ → Except Error β)

omit [Device δ] in
lemma visitRow_run (row : ρ) (b : β) (s : Session δ) :
    visitRow visit row (b, s) =
      match visit b row with
      | .ok b' => (.ok (), (b', s))
      | .error e => (.error (.error e), (b, s)) :=
  rfl

/-- A walk through some rows: the visitor has met them up to its first refusal, and that is
how the walk ends, unless the device fails. -/
def Walks (m : WalkM δ β Unit) (b : β) (s : Session δ) (c : CacheId) (B : Backing δ)
    (rows : List ρ) : Prop :=
  Ends m (b, s)
    (fun _ s' => Rows.visit visit b rows = (s'.1, .ok ()) ∧ s.Quiet B c s'.2)
    (fun e s' => B.Fails e ∨
      (∃ error, e = .error error ∧ Rows.visit visit b rows = (s'.1, .error error)) ∧
        s.Quiet B c s'.2)

variable {visit}

lemma visit_rows (rows : List ρ) (b : β) (s : Session δ) (c : CacheId) :
    Walks visit (rows.forM (visitRow visit)) b s c B rows := by
  induction rows generalizing b with
  | nil => exact ⟨rfl, .refl s⟩
  | cons row rest ih =>
      change Ends (visitRow visit row >>= fun _ => rest.forM (visitRow visit)) (b, s) _ _
      rw [Rows.visit]
      cases hvisit : visit b row with
      | error e =>
          have hrun : visitRow visit row (b, s) = (.error (.error e), (b, s)) := by
            rw [visitRow_run, hvisit]
          exact Ends.of_error (run_bind_error hrun _) (.inr ⟨⟨e, rfl, rfl⟩, .refl s⟩)
      | ok b' =>
          have hrun : visitRow visit row (b, s) = (.ok (), (b', s)) := by
            rw [visitRow_run, hvisit]
          exact Ends.bind_ok hrun (ih b')

/-- A walk through some rows and then through others. -/
lemma Walks.append {m : WalkM δ β Unit} {m' : Unit → WalkM δ β Unit} {b : β} {c : CacheId}
    {before after : List ρ} (hm : Walks visit m b s c B before)
    (hm' : ∀ b' s', s.Quiet B c s' → Walks visit (m' ()) b' s' c B after) :
    Walks visit (m >>= m') b s c B (before ++ after) := by
  refine (hm.mono_error ?_).bind ?_
  · rintro e s' (hfails | ⟨⟨error, rfl, hvisit⟩, hquiet⟩)
    · exact .inl hfails
    · exact .inr ⟨⟨error, rfl, by rw [Rows.visit_append, hvisit]⟩, hquiet⟩
  · rintro - ⟨b', s'⟩ ⟨hvisit, hquiet⟩
    refine (hm' b' s' hquiet).mono ?_ ?_
    · rintro - s'' ⟨hvisit', hquiet'⟩
      exact ⟨by rw [Rows.visit_append, hvisit]; exact hvisit', hquiet.trans hquiet'⟩
    · rintro e s'' (hfails | ⟨⟨error, rfl, hvisit'⟩, hquiet'⟩)
      · exact .inl hfails
      · exact .inr ⟨⟨error, rfl, by rw [Rows.visit_append, hvisit]; exact hvisit'⟩,
          hquiet.trans hquiet'⟩

lemma during_view_ends {α : Type} {id : PageId} {f : Page → Except Failure α} {a : α} {p : Page}
    {c : CacheId} (hp : s.Shows B c id.index p) (hf : f p = .ok a) (b : β) :
    Ends (during (Session.view c id f) : WalkM δ β α) (b, s)
      (fun a' s' => a' = a ∧ s'.1 = b ∧ s.Quiet B c s'.2)
      (fun e _ => B.Fails e) := by
  have hview := Session.view_ends hp hf
  rcases hrun : Session.view c id f s with ⟨e | a', s'⟩
  · have hend : (during (Session.view c id f) : WalkM δ β α) (b, s) = (.error e, (b, s')) := by
      rw [during]
      simp only [hrun]
    exact Ends.of_error hend (hview.error hrun).1
  · have hend : (during (Session.view c id f) : WalkM δ β α) (b, s) = (.ok a', (b, s')) := by
      rw [during]
      simp only [hrun]
    obtain ⟨rfl, hquiet, -⟩ := hview.ok hrun
    exact Ends.of_ok hend ⟨rfl, rfl, hquiet⟩

/-- A walk from a stored shape goes through its rows. -/
lemma walkFrom_walks (hR : t.rows.Lawful key) (S : Shape ρ h) (hS : S.Stored B t.rows t.cache s)
    (b : β) {n : ℕ} (hn : h < n) :
    Walks visit (t.walkFrom visit n S.id) b s t.cache B S.rows := by
  obtain ⟨n, rfl⟩ := Nat.exists_eq_succ_of_ne_zero (Nat.ne_zero_of_lt hn)
  induction h generalizing s b n with
  | zero =>
      obtain ⟨id, rows, rfl⟩ := S.exists_leaf
      obtain ⟨p, hp, -, hpage⟩ := hS
      refine Ends.bind (during_view_ends hp (t.content_leaf hpage) b).or_inl ?_
      rintro _ ⟨b', s'⟩ ⟨rfl, rfl, hquiet⟩
      refine (visit_rows (B := B) rows b' s' t.cache).mono ?_ ?_
      · exact fun _ _ h => ⟨h.1, hquiet.trans h.2⟩
      · exact fun _ _ h => h.imp_right fun h => ⟨h.1, hquiet.trans h.2⟩
  | succ h ih =>
      obtain ⟨id, keys, children, rfl⟩ := S.exists_inner
      obtain ⟨⟨p, hp, -, hpage⟩, hchildren⟩ := hS
      refine Ends.bind (during_view_ends hp (t.content_inner hR hpage) b).or_inl ?_
      rintro _ ⟨b', s'⟩ ⟨rfl, rfl, hquiet⟩
      obtain ⟨n, rfl⟩ := Nat.exists_eq_succ_of_ne_zero (show n ≠ 0 by omega)
      -- One child after the other, by an induction on the list of them inside the one on the
      -- height.
      have hwalk : ∀ (cs : List (Shape ρ h)) (b : β) (s : Session δ),
          (∀ c ∈ cs, c.Stored B t.rows t.cache s) →
          Walks visit ((cs.map Shape.id).forM (t.walkFrom visit (n + 1))) b s t.cache B
            (cs.flatMap Shape.rows) := by
        intro cs
        induction cs with
        | nil => exact fun b s _ => ⟨rfl, .refl s⟩
        | cons c cs ihcs =>
            intro b s hcs
            rw [List.flatMap_cons]
            refine (ih c (hcs c List.mem_cons_self) b n (by omega)).append fun b' s' hquiet => ?_
            exact ihcs b' s' fun d hd => (hcs d (List.mem_cons_of_mem _ hd)).quiet hquiet
      refine (hwalk children b' s' fun c hc => (hchildren c hc).quiet hquiet).mono ?_ ?_
      · exact fun _ _ h => ⟨h.1, hquiet.trans h.2⟩
      · exact fun _ _ h => h.imp_right fun h => ⟨h.1, hquiet.trans h.2⟩

/-- A walk through a held tree: the visitor has met the rows in order up to its first
refusal, and that is how the walk ends, unless the device fails. -/
theorem Holds.walk_ends (hR : t.rows.Lawful key) (hT : t.Holds B s T)
    (visit : β → ρ → Except Error β) (b : β) {depth : ℕ} (hdepth : T.height < depth) :
    Ends (t.walk visit b depth) s
      (fun r s' => (∃ e, r.2 = .error e ∧ B.Fails e) ∨
        (r.1 = (Rows.visit visit b T.rows).1 ∧
          r.2 = (Rows.visit visit b T.rows).2.mapError Failure.error) ∧ s.Quiet B t.cache s')
      (fun _ _ => False) := by
  obtain ⟨p, hp, hleads⟩ := hT.root
  have hwalk : Walks visit (do t.walkFrom visit depth (← during t.root)) b s t.cache B T.rows := by
    refine Ends.bind (during_view_ends hp hleads.root b).or_inl ?_
    rintro _ ⟨b', s'⟩ ⟨rfl, rfl, hquiet⟩
    refine (walkFrom_walks hR T.top (hT.stored.quiet hquiet) b' hdepth).mono ?_ ?_
    · exact fun _ _ h => ⟨h.1, hquiet.trans h.2⟩
    · exact fun _ _ h => h.imp_right fun h => ⟨h.1, hquiet.trans h.2⟩
  -- The walk gives its value and how it ended as one result, so neither way is a failure of the
  -- call.
  rcases hrun : (do t.walkFrom visit depth (← during t.root) : WalkM δ β Unit) (b, s)
    with ⟨e | ⟨⟩, b', s'⟩
  · have hend : t.walk visit b depth s = (.ok (b', .error e), s') := by rw [walk, hrun]
    refine Ends.of_ok hend ?_
    obtain hfails | ⟨⟨error, rfl, hvisit⟩, hquiet⟩ := hwalk.error hrun
    · exact .inl ⟨e, rfl, hfails⟩
    · exact .inr ⟨by simp [hvisit, Except.mapError], hquiet⟩
  · have hend : t.walk visit b depth s = (.ok (b', .ok ()), s') := by rw [walk, hrun]
    refine Ends.of_ok hend ?_
    obtain ⟨hvisit, hquiet⟩ := hwalk.ok hrun
    exact .inr ⟨by simp [hvisit, Except.mapError], hquiet⟩

lemma visit_fold (f : β → ρ → β) (b : β) (rows : List ρ) :
    Rows.visit (fun b row => .ok (f b row)) b rows = (rows.foldl f b, .ok ()) := by
  induction rows generalizing b with
  | nil => rfl
  | cons row rest ih => exact ih (f b row)

/-- A fold over a held tree is one over its rows. -/
theorem Holds.fold_ends (hR : t.rows.Lawful key) (hT : t.Holds B s T) (hordered : T.Ordered key)
    (f : β → ρ → β) (b : β) :
    Ends (t.fold f b) s (fun b' s' => b' = T.rows.foldl f b ∧ s.Quiet B t.cache s')
      (fun e _ => B.Fails e) := by
  obtain ⟨n, hn⟩ := hT.exists_next
  have hlt := hT.height_lt hordered hn
  refine Ends.bind_ok (reach_run hn) (Ends.bind ((hT.walk_ends hR _ b (by omega)).mono_error
    fun _ _ h => h.elim) ?_)
  rintro ⟨b', r⟩ s' (⟨e, hr, hfails⟩ | ⟨⟨hb, hr⟩, hquiet⟩)
  · simp only at hr
    subst hr
    exact Ends.of_error rfl hfails
  · rw [visit_fold] at hb hr
    simp only at hb hr
    subst hb hr
    exact Ends.of_ok rfl ⟨rfl, hquiet⟩

end Walk

theorem Holds.size_ends (hR : t.rows.Lawful key) (hT : t.Holds B s T) (hordered : T.Ordered key) :
    Ends t.size s (fun n s' => n = T.rows.length ∧ s.Quiet B t.cache s') (fun e _ => B.Fails e) := by
  refine (hT.fold_ends hR hordered (fun n _ => n + 1) 0).mono_ok ?_
  rintro n s' ⟨rfl, hquiet⟩
  refine ⟨?_, hquiet⟩
  have hcount : ∀ (rows : List ρ) (n : ℕ), rows.foldl (fun n _ => n + 1) n = n + rows.length := by
    intro rows
    induction rows with
    | nil => simp
    | cons row rest ih =>
        intro n
        rw [List.foldl_cons, ih, List.length_cons]
        omega
  rw [hcount, Nat.zero_add]

theorem Holds.toList_ends (hR : t.rows.Lawful key) (hT : t.Holds B s T)
    (hordered : T.Ordered key) :
    Ends t.toList s (fun rows s' => rows = T.rows ∧ s.Quiet B t.cache s') (fun e _ => B.Fails e) := by
  refine (hT.fold_ends hR hordered (fun rows row => row :: rows) []).bind ?_
  rintro rows s' ⟨rfl, hquiet⟩
  exact Ends.of_ok rfl ⟨by simp, hquiet⟩

end Tree

end PageCatalog
