import Mathlib.Tactic
import PageCatalog.Proofs.Tree.Representation

/-!
A tree as an ordered map, over whole histories.

A new tree is used through any number of handles, and others use the store at the same
time: they take pages, write to pages and free pages that are not those of the tree, and
flush the store. As long as the device does not fail and pages do not run out, every
answer of the tree is that of a sorted map.

* `TreeCall`, `TreeCall.step`: what may be done, and what the program does.
* `TreeCall.answer`, `TreeCall.update`: what a sorted map does.
* `TreeCall.step_agrees`: one call.
* `Tree.answers_of_undisturbed`: histories.
-/

namespace PageCatalog

/-- What is done with a store in which a tree is kept. -/
inductive TreeCall (ρ : Type) where
  | put (row : ρ)
  | remove (row : ρ)
  | find (row : ρ)
  | size
  /-- A visitor knows the rows that it has seen, and may refuse the next one. -/
  | visit (visitor : List ρ → ρ → Except Error Unit)
  /-- Another handle on the tree is opened. -/
  | takeOver
  | allocate (c : CacheId) (partition : UInt16) (space : Space)
  | free (c : CacheId) (id : PageId)
  | write (c : CacheId) (id : PageId) (m : PageM Unit)
  | flush

/-- What a call gives back. -/
inductive TreeAnswer (ρ : Type) where
  | row (r : Option ρ)
  | number (n : ℕ)
  /-- The rows that a visitor took, and how the visit ended. -/
  | visited (rows : List ρ) (r : Except Failure Unit)
  | done

/-- A call reports trouble, or a visit does. -/
def TreeAnswer.Troubled {ρ : Type} : Except Failure (TreeAnswer ρ) → Prop
  | .error e => e.IsTrouble
  | .ok (.visited _ (.error e)) => e.IsTrouble
  | .ok _ => False

namespace TreeCall

variable {ρ κ δ : Type} [LinearOrder κ] [Device δ]

/-- A visitor that is put on record. -/
def record (visitor : List ρ → ρ → Except Error Unit) (seen : List ρ) (row : ρ) :
    Except Error (List ρ) :=
  (visitor seen row).map fun _ => seen ++ [row]

/-- What the program does. -/
def step (t : Tree ρ) : TreeCall ρ → SessionM δ (TreeAnswer ρ)
  | put row => .row <$> t.put row
  | remove row => .row <$> t.remove row
  | find row => .row <$> t.find? row
  | size => .number <$> t.size
  | visit visitor => (fun r => .visited r.1 r.2) <$> do t.walk (record visitor) [] (← t.reach)
  | takeOver => (fun _ => .done) <$> t.start (some false)
  | allocate c partition space => (fun _ => .done) <$> Session.allocate c partition space
  | free c id => (fun _ => .done) <$> Session.free c id
  | write c id m => (fun _ => .done) <$> Session.edit c id m
  | flush => (fun _ => .done) <$> Session.flush

/-- What a sorted map of rows answers; it has nothing to say of what others do. -/
def answer (R : RowFormat ρ) (key : ρ → κ) (rows : List ρ) :
    TreeCall ρ → Option (Except Failure (TreeAnswer ρ))
  | put row => some (match R.fits row with
    | .ok () => .ok (.row (Rows.lookup key row rows))
    | .error e => .error (.error e))
  | remove row => some (.ok (.row (Rows.lookup key row rows)))
  | find row => some (.ok (.row (Rows.lookup key row rows)))
  | size => some (.ok (.number rows.length))
  | visit visitor =>
    let (seen, r) := Rows.visit (record visitor) [] rows
    some (.ok (.visited seen (r.mapError Failure.error)))
  | takeOver => some (.ok .done)
  | _ => none

/-- What becomes of the rows of a sorted map. -/
def update (R : RowFormat ρ) (key : ρ → κ) (rows : List ρ) : TreeCall ρ → List ρ
  | put row => match R.fits row with
    | .ok () => Rows.insert key row rows
    | .error _ => rows
  | remove row => Rows.erase key row rows
  | _ => rows

/-- A page is that of no node of the tree, nor the meta page of its cache. -/
def Foreign (t : Tree ρ) (s : Session δ) (c : CacheId) (id : PageId) : Prop :=
  c ≠ t.cache ∨ id.index ≠ 0 ∧ ∀ root, (t.root s).1 = .ok root →
    ∀ n node, t.Reaches s n root node → node.index ≠ id.index

/-- Others leave the pages of the tree alone. -/
def Apart (t : Tree ρ) (s : Session δ) : TreeCall ρ → Prop
  | free c id => Foreign t s c id
  | write c id _ => Foreign t s c id
  | _ => True

/-! ### One call -/

variable {t : Tree ρ} {key : ρ → κ} {s s' : Session δ} {rows : List ρ}

/-- A call has met trouble, or it has answered as a sorted map does and left the tree with
the rows of that map. -/
def Agrees (t : Tree ρ) (key : ρ → κ) (rows : List ρ) (call : TreeCall ρ)
    (r : Except Failure (TreeAnswer ρ)) (s' : Session δ) : Prop :=
  TreeAnswer.Troubled r ∨ t.HoldsRows key s' (call.update t.rows key rows) ∧
    ∀ a, call.answer t.rows key rows = some a → r = a

/-- Pages of others are none of the tree. -/
lemma Foreign.keeps {c : CacheId} {id : PageId} (h : Foreign t s c id) (hc : c = t.cache)
    (hR : t.rows.Supported key) (hs : t.HoldsRows key s rows)
    (hkeeps : s.Keeps (.none δ) t.cache [id.index] s') : t.HoldsRows key s' rows := by
  obtain ⟨T, hT, hproper, hrows⟩ := hs
  obtain hne | ⟨hmeta, hnodes⟩ := h
  · exact absurd hc hne
  obtain ⟨m, hm, hleads⟩ := hT.root
  have hroot : (t.root s).1 = .ok T.top.id := by
    have hmemory : s.InMemory t.cache PageId.metaPage.index m := Session.shows_none.mp hm
    rw [Tree.root, Session.view_memory hmemory, hleads.root]
  refine ⟨T, hT.keeps hkeeps (fun hin => hmeta (List.mem_singleton.mp hin).symm) fun i hi hin => ?_,
    hproper, hrows⟩
  obtain ⟨n, node, hreach, hnode⟩ := Tree.exists_reaches hR.lawful T.top hT.stored hi
  exact hnodes _ hroot n node hreach (hnode.trans (List.mem_singleton.mp hin))

/-- The cache of a held tree is open. -/
lemma exists_open (hs : t.HoldsRows key s rows) : ∃ k, s.store.caches[t.cache]? = some k := by
  obtain ⟨T, hT, -⟩ := hs
  obtain ⟨n, hn⟩ := hT.exists_next
  obtain ⟨k, hk, -⟩ := Option.map_eq_some_iff.mp hn
  exact ⟨k, hk⟩

lemma write_ends (hR : t.rows.Supported key) (hs : t.HoldsRows key s rows) {c : CacheId}
    {id : PageId} (hapart : Foreign t s c id) (m : PageM Unit) :
    Ends (Session.edit c id m) s (fun _ s' => t.HoldsRows key s' rows)
      (fun _ s' => t.HoldsRows key s' rows) := by
  by_cases hc : c = t.cache
  · subst hc
    obtain ⟨k, hk⟩ := exists_open hs
    exact (Session.edit_keeps (B := .none δ) hk id m).mono
      (fun _ _ h => hapart.keeps rfl hR hs h.1) fun _ _ h => hapart.keeps rfl hR hs h.1
  · exact (Session.edit_only c id m s).mono (fun _ _ h => hs.quiet (h.quiet (Ne.symm hc)))
      fun _ _ h => hs.quiet (h.quiet (Ne.symm hc))

lemma free_ends (hR : t.rows.Supported key) (hs : t.HoldsRows key s rows) {c : CacheId}
    {id : PageId} (hapart : Foreign t s c id) :
    Ends (Session.free c id) s (fun _ s' => t.HoldsRows key s' rows)
      (fun _ s' => t.HoldsRows key s' rows) := by
  by_cases hc : c = t.cache
  · subst hc
    obtain ⟨k, hk⟩ := exists_open hs
    exact (Session.free_keeps (B := .none δ) hk id).mono
      (fun _ _ h => hapart.keeps rfl hR hs h.1) fun _ _ h => hapart.keeps rfl hR hs h.1
  · exact (Session.free_only c id s).mono (fun _ _ h => hs.quiet (h.quiet (Ne.symm hc)))
      fun _ _ h => hs.quiet (h.quiet (Ne.symm hc))

lemma allocate_ends (hs : t.HoldsRows key s rows) (c : CacheId) (partition : UInt16)
    (space : Space) :
    Ends (Session.allocate c partition space) s (fun _ s' => t.HoldsRows key s' rows)
      (fun _ s' => t.HoldsRows key s' rows) := by
  by_cases hc : c = t.cache
  · subst hc
    obtain ⟨T, hT, hproper, hrows⟩ := hs
    obtain ⟨n, hn⟩ := hT.exists_next
    by_cases hlimit : CacheFile.indexLimit ≤ n
    · exact Ends.of_error (Session.allocate_full hn hlimit _ _) ⟨T, hT, hproper, hrows⟩
    · obtain ⟨s', hallocate, -, hkeeps, -⟩ := Session.allocate_ok (B := .none δ) hn
        (Nat.not_le.mp hlimit) partition space
      exact Ends.of_ok hallocate
        ⟨T, hT.keeps hkeeps List.not_mem_nil fun _ _ => List.not_mem_nil, hproper, hrows⟩
  · exact (Session.allocate_only c partition space s).mono
      (fun _ _ h => hs.quiet (h.quiet (Ne.symm hc))) fun _ _ h => hs.quiet (h.quiet (Ne.symm hc))

/-- What others do, when it keeps the rows. -/
lemma agrees_of_others {α : Type} {m : SessionM δ α} {call : TreeCall ρ}
    (hm : Ends m s (fun _ s' => t.HoldsRows key s' rows) (fun _ s' => t.HoldsRows key s' rows))
    (hupdate : call.update t.rows key rows = rows) (hanswer : call.answer t.rows key rows = none) :
    Ends ((fun _ => TreeAnswer.done) <$> m) s (fun a s' => Agrees t key rows call (.ok a) s')
      (fun e s' => Agrees t key rows call (.error e) s') := by
  refine Ends.map (hm.mono ?_ ?_)
  all_goals
    intro _ s' hs'
    refine .inr ⟨by rwa [hupdate], fun a ha => ?_⟩
    rw [hanswer] at ha
    cases ha

/-- Every call meets trouble or agrees with a sorted map. -/
theorem step_agrees (hR : t.rows.Supported key) (hs : t.HoldsRows key s rows) (call : TreeCall ρ)
    (hapart : call.Apart t s) :
    Agrees t key rows call (call.step t s).1 (call.step t s).2 := by
  apply Ends.result (P := fun r s' => Agrees t key rows call r s')
  -- The calls of the tree answer by their own lemmas. The calls of others go by what they leave
  -- alone: a tree has its pages to itself.
  cases call with
  | put row =>
      refine Ends.map ((hs.put_ends hR row).mono ?_ ?_)
      · rintro old s' ⟨hfits, rfl, hs'⟩
        exact .inr ⟨by rwa [update, hfits], by simp [answer, hfits]⟩
      · rintro e s' (htrouble | ⟨error, hfits, rfl, hs'⟩)
        · exact .inl htrouble
        · exact .inr ⟨by rwa [update, hfits], by simp [answer, hfits]⟩
  | remove row =>
      refine Ends.map ((hs.remove_ends hR row).mono ?_ fun _ _ hio => .inl (.inl hio))
      rintro old s' ⟨rfl, hs'⟩
      exact .inr ⟨hs', by simp [answer]⟩
  | find row =>
      refine Ends.map ((hs.find_ends hR row).mono ?_ fun _ _ hio => .inl (.inl hio))
      rintro r s' ⟨rfl, hs'⟩
      exact .inr ⟨hs', by simp [answer]⟩
  | size =>
      refine Ends.map ((hs.size_ends hR).mono ?_ fun _ _ hio => .inl (.inl hio))
      rintro n s' ⟨rfl, hs'⟩
      exact .inr ⟨hs', by simp [answer]⟩
  | visit visitor =>
      refine Ends.map ((hs.walk_ends hR (record visitor) []).mono ?_ fun _ _ h => h.elim)
      rintro ⟨seen, r⟩ s' (⟨e, rfl, hio⟩ | ⟨⟨rfl, rfl⟩, hs'⟩)
      · exact .inl (.inl hio)
      · exact .inr ⟨hs', by simp [answer]⟩
  | takeOver =>
      refine Ends.map ((hs.takeOver_ends hR).mono ?_ fun _ _ hio => .inl (.inl hio))
      intro _ s' hs'
      exact .inr ⟨hs', by simp [answer]⟩
  | allocate c partition space =>
      exact agrees_of_others (allocate_ends hs c partition space) rfl rfl
  | free c id => exact agrees_of_others (free_ends hR hs hapart) rfl rfl
  | write c id m => exact agrees_of_others (write_ends hR hs hapart m) rfl rfl
  | flush =>
      exact agrees_of_others ((Session.flush_quiet t.cache s).mono (fun _ _ h => hs.quiet h)
        fun _ _ h => hs.quiet h) rfl rfl

end TreeCall

/-! ### Histories -/

namespace Tree

variable {ρ κ δ : Type} [LinearOrder κ] [Device δ]

/-- A handle on the same tree under another name. -/
def handle (t : Tree ρ) (name : String) : Tree ρ := { t with name := name }

/-- Calls, each through a handle of some name, that leave the pages of the tree alone and
meet no trouble. -/
def Undisturbed (t : Tree ρ) : List (String × TreeCall ρ) → Session δ → Prop
  | [], _ => True
  | (name, call) :: rest, s =>
    call.Apart (t.handle name) s ∧ ¬ TreeAnswer.Troubled (call.step (t.handle name) s).1 ∧
      t.Undisturbed rest (call.step (t.handle name) s).2

/-- The session after some calls. -/
def sessionAfter (t : Tree ρ) : List (String × TreeCall ρ) → Session δ → Session δ
  | [], s => s
  | (name, call) :: rest, s => t.sessionAfter rest (call.step (t.handle name) s).2

/-- The rows of a sorted map after some calls. -/
def rowsAfter (R : RowFormat ρ) (key : ρ → κ) : List (String × TreeCall ρ) → List ρ → List ρ
  | [], rows => rows
  | (_, call) :: rest, rows => rowsAfter R key rest (call.update R key rows)

variable {t : Tree ρ} {key : ρ → κ} {s : Session δ} {rows : List ρ}

/-- A call that meets no trouble answers as a sorted map does, whatever the handle. -/
lemma HoldsRows.step (hR : t.rows.Supported key) (hs : t.HoldsRows key s rows) {name : String}
    {call : TreeCall ρ} (hapart : call.Apart (t.handle name) s)
    (hsound : ¬ TreeAnswer.Troubled (call.step (t.handle name) s).1) :
    t.HoldsRows key (call.step (t.handle name) s).2 (call.update t.rows key rows) ∧
      ∀ a, call.answer t.rows key rows = some a → (call.step (t.handle name) s).1 = a := by
  have hhandle : (t.handle name).HoldsRows key s rows := hs.rename name
  obtain htrouble | ⟨hs', hanswer⟩ :=
    TreeCall.step_agrees (t := t.handle name) hR hhandle call hapart
  · exact absurd htrouble hsound
  · exact ⟨hs'.rename t.name, hanswer⟩

/-- Every call of an undisturbed history answers as a sorted map does. -/
lemma HoldsRows.history (hR : t.rows.Supported key) (hs : t.HoldsRows key s rows)
    {before after : List (String × TreeCall ρ)} {name : String} {call : TreeCall ρ}
    (hcalls : t.Undisturbed (before ++ (name, call) :: after) s)
    {a : Except Failure (TreeAnswer ρ)}
    (ha : call.answer t.rows key (rowsAfter t.rows key before rows) = some a) :
    (call.step (t.handle name) (t.sessionAfter before s)).1 = a := by
  induction before generalizing s rows with
  | nil => exact (hs.step hR hcalls.1 hcalls.2.1).2 a ha
  | cons first rest ih =>
      obtain ⟨name', call'⟩ := first
      obtain ⟨hapart, hsound, hrest⟩ := hcalls
      exact ih (hs.step hR hapart hsound).1 hrest ha

/-- A tree that was made anew is an ordered map: in every history, through whatever handles,
in which others leave its pages alone and no call meets trouble, each call answers as a map
sorted by the keys of the rows does. -/
theorem answers_of_undisturbed (hR : t.rows.Supported key) {folder : String} {options : Options}
    {d d' : δ} {store : PageStore} (hstore : Session.start folder options d = (.ok store, d'))
    (hstart : t.start (some true) ⟨d', store⟩ = (.ok (), s))
    {before after : List (String × TreeCall ρ)} {name : String} {call : TreeCall ρ}
    (hcalls : t.Undisturbed (before ++ (name, call) :: after) s)
    {a : Except Failure (TreeAnswer ρ)}
    (ha : call.answer t.rows key (rowsAfter t.rows key before []) = some a) :
    (call.step (t.handle name) (t.sessionAfter before s)).1 = a :=
  (holdsRows_of_start hR hstore hstart).history hR hcalls ha

/-- An answer that is none of trouble. -/
def TreeAnswer.isSound {ρ : Type} : Except Failure (TreeAnswer ρ) → Bool
  | .ok (.visited _ r) => r.isOk
  | r => r.isOk

lemma TreeAnswer.not_troubled {ρ : Type} {r : Except Failure (TreeAnswer ρ)} (h : isSound r = true) :
    ¬ TreeAnswer.Troubled r := by
  match r, h with
  | .ok (.visited _ (.ok _)), _ => exact id
  | .ok (.row _), _ => exact id
  | .ok (.number _), _ => exact id
  | .ok .done, _ => exact id

/-- Every call has a sound answer. -/
def soundly (t : Tree ρ) : List (String × TreeCall ρ) → Session δ → Bool
  | [], _ => true
  | (name, call) :: rest, s =>
    TreeAnswer.isSound (call.step (t.handle name) s).1 && t.soundly rest (call.step (t.handle name) s).2

/-- Calls that touch no page by themselves are undisturbed if they have sound answers. -/
lemma undisturbed_of_soundly {calls : List (String × TreeCall ρ)} (h : t.soundly calls s = true)
    (hapart : ∀ e ∈ calls, ∀ t' s', e.2.Apart (δ := δ) t' s') : t.Undisturbed calls s := by
  induction calls generalizing s with
  | nil => trivial
  | cons e rest ih =>
      obtain ⟨hsound, hrest⟩ := Bool.and_eq_true_iff.mp h
      exact ⟨hapart e List.mem_cons_self _ _, TreeAnswer.not_troubled hsound,
        ih hrest fun e he => hapart e (List.mem_cons_of_mem _ he)⟩

/-- Two handles put three numbers and remove one of them, while another page is taken. -/
def shared : List (String × TreeCall UInt64) :=
  [("first", .put 7), ("second", .put 3), ("first", .put 5), ("other", .allocate 1 0 .index),
    ("second", .remove 3)]

/-- Three numbers need two leaves. When one of them is removed again, a visitor meets the other
two. -/
theorem answers_after_split_and_removal :
    ∃ s : Session MemoryDisk, numbers.start (some true) .blank = (.ok (), s) ∧
      (numbers.level (numbers.sessionAfter (shared.take 3) s)).1 = .ok 1 ∧
      ((TreeCall.visit fun _ _ => .ok ()).step (numbers.handle "first") (numbers.sessionAfter shared s)).1
        = .ok (.visited [5, 7] (.ok ())) := by
  -- the session is hidden, so that nothing evaluates it again
  obtain ⟨s, hstart, hsound, hlevel⟩ :
      ∃ s : Session MemoryDisk, numbers.start (some true) .blank = (.ok (), s) ∧
        numbers.soundly (shared ++ [("first", .visit fun _ _ => .ok ())]) s = true ∧
        (numbers.level (numbers.sessionAfter (shared.take 3) s)).1 = .ok 1 := by
    obtain ⟨⟨⟩, hstart⟩ := run_of_isOk (show (numbers.start (some true) .blank).1.isOk = true by
      decide +kernel)
    exact ⟨_, hstart, by decide +kernel, by decide +kernel⟩
  have hcalls := undisturbed_of_soundly hsound fun e he t' s' => by
    simp only [shared, List.cons_append, List.nil_append, List.mem_cons, List.not_mem_nil, or_false] at he
    obtain rfl | rfl | rfl | rfl | rfl | rfl := he <;> trivial
  exact ⟨s, hstart, hlevel,
    answers_of_undisturbed numbers_supported Session.blank_start hstart hcalls rfl⟩

end Tree

end PageCatalog
