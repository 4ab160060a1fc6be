import Mathlib.Tactic
import PageCatalog.Proofs.Directory.Shape
import PageCatalog.Proofs.Tree.OrderedMap
import PageCatalog.Proofs.Tree.Within

/-!
The operations of a directory.

What a call does to the pages of a cache is what the shape of the directory becomes. The
answer is that of the shape, unless a page that has to be loaded cannot be had. Pages that
are neither the meta page nor nodes keep what is in them: a page that is entered is full of
zeros, and no call touches it again before its name is dropped, which frees it.

* `DirectoryCall.step`: what the program does.
* `Directory.Held`: a directory of a given shape.
* `Directory.Moves`: the pages after a call.
* `Held.obtain_ends`, `Held.drop_ends`, `Held.step_ends`: every call.
* `Directory.held_of_start`: a new directory.
-/

namespace PageCatalog

/-- What the program does. -/
def DirectoryCall.step {δ : Type} [Device δ] (d : Directory) : DirectoryCall → SessionM δ DirectoryAnswer
  | obtain name => (fun r => .root (some r)) <$> d.obtain name
  | drop name => .root <$> d.drop name
  | entries => .entries <$> d.entries
  | names => .names <$> d.names
  | size => .number <$> d.size

namespace Directory

variable {δ : Type} [Device δ] {B : Backing δ}

variable (B) in
/-- A session holds a directory of a given shape, and shows the pages that are entered. -/
structure Held (d : Directory) (s : Session δ) (D : DirectoryShape) : Prop where
  holds : d.tree.Holds B s D.tree
  next : s.next? d.cache = some D.next
  tidy : D.Tidy
  shown : ∀ e ∈ D.tree.rows, ∃ p, s.Shows B d.cache e.page.index p

variable (B) in
/-- What a call leaves: its shape, the pages that are not of the tree as they were, a new page
of zeros, and freed pages in place of one that was dropped and of the nodes that are gone. -/
structure Moves (d : Directory) (s : Session δ) (D : DirectoryShape) (call : DirectoryCall)
    (s' : Session δ) : Prop where
  held : d.Held B s' (call.act d s.size D).2
  keeps : s.Keeps B d.cache (0 :: D.tree.indexes ++ call.dropped (call.act d s.size D).1) s'
  fresh : D.next < (call.act d s.size D).2.next → s'.InMemory d.cache D.next (.zeros s.size)
  freed : ∀ i ∈ call.dropped (call.act d s.size D).1, s'.Freed d.cache i
  released : (call.act d s.size D).1.isOk = true →
    s'.Released d.cache D.tree.indexes (call.act d s.size D).2.tree.indexes

variable {d : Directory} {s s' : Session δ} {D : DirectoryShape} {name : String} {e : Entry}

/-- Directories keep entries. -/
lemma tree_supported (d : Directory) : d.tree.rows.Supported Entry.key := .entries

/-- Entries are lawful rows. -/
lemma tree_lawful (d : Directory) : d.tree.rows.Lawful Entry.key := d.tree_supported.lawful

/-- Nodes of entries have room for what is asked of them. -/
lemma Held.roomy (h : d.Held B s D) : RowFormat.entries.Roomy s.size :=
  d.tree_supported.roomy h.holds.size.1

/-- A directory is held wherever its pages are shown. -/
lemma Held.transport {δ' : Type} [Device δ'] {B' : Backing δ'} {s' : Session δ'} (h : d.Held B s D)
    (hsize : s'.size = s.size) (hnext : s'.next? d.cache = some D.next)
    (hshows : ∀ i p, s.Shows B d.cache i p → s'.Shows B' d.cache i p) : d.Held B' s' D where
  holds := h.holds.transport hsize fun i _ => hshows i
  next := hnext
  tidy := h.tidy
  shown e he := (h.shown e he).imp fun _ => hshows _ _

/-- A directory is held on after a call that changes nothing. -/
lemma Held.quiet (h : d.Held B s D) (hquiet : s.Quiet B d.cache s') : d.Held B s' D :=
  h.transport hquiet.keeps.size (hquiet.next.trans h.next) fun _ _ hp => hquiet.shows hp

/-- Changes of pages that are neither of the tree nor entered. -/
lemma Held.keeps (h : d.Held B s D) {changed : List ℕ} (hkeeps : s.Keeps B d.cache changed s')
    (hnext : s'.next? d.cache = some D.next) (hnodes : ∀ i ∈ 0 :: D.tree.indexes, i ∉ changed)
    (hpages : ∀ e ∈ D.tree.rows, e.page.index ∉ changed) : d.Held B s' D where
  holds := h.holds.keeps hkeeps (hnodes 0 List.mem_cons_self)
    fun i hi => hnodes i (List.mem_cons_of_mem 0 hi)
  next := hnext
  tidy := h.tidy
  shown e he := (h.shown e he).imp fun _ hp => hkeeps.shows (hpages e he) hp

/-- A call that finds the shape as it is to be. -/
lemma Held.moves_quiet (h : d.Held B s D) {call : DirectoryCall}
    (hshape : (call.act d s.size D).2 = D) (hdropped : call.dropped (call.act d s.size D).1 = [])
    (hquiet : s.Quiet B d.cache s') : d.Moves B s D call s' where
  held := hshape.symm ▸ h.quiet hquiet
  keeps := hquiet.keeps.mono fun _ hi => absurd hi List.not_mem_nil
  fresh hlt := absurd (hshape ▸ hlt) (lt_irrefl _)
  freed i hi := by
    rw [hdropped] at hi
    exact absurd hi List.not_mem_nil
  released _ := hshape.symm ▸ .refl _ _ _

/-! ### Entering a page -/

/-- The next page is taken for a name and entered, or the tree lacks a page. -/
lemma Held.enter_ends (h : d.Held B s D) (hlimit : ¬ CacheFile.indexLimit ≤ D.next)
    (hshort : (encode name).length ≤ Entry.longestName) :
    Ends (do
        let page ← Session.allocate d.cache 0 .index
        discard <| d.tree.put ⟨encode name, page⟩
        return d.rootPage page true : SessionM δ RootPage) s
      (fun r s' => r = d.rootPage (.make 0 .index D.next) true ∧ (D.enter s.size name).old ≠ none ∧
        d.Held B s' ⟨(D.enter s.size name).tree, (D.enter s.size name).next⟩ ∧
        s.Keeps B d.cache (0 :: D.tree.indexes) s' ∧ s'.InMemory d.cache D.next (.zeros s.size))
      (fun e s' => B.Fails e ∨ e = .error (.outOfSpace d.cache) ∧ (D.enter s.size name).old = none ∧
        d.Held B s' ⟨(D.enter s.size name).tree, (D.enter s.size name).next⟩ ∧
        s.Keeps B d.cache (0 :: D.tree.indexes) s' ∧ s'.InMemory d.cache D.next (.zeros s.size)) := by
  have htidy := h.tidy.enter h.roomy hlimit name
  obtain ⟨s₁, hallocate, hpage, hkeeps₁, hn₁⟩ :=
    Session.allocate_ok (B := B) h.next (Nat.not_le.mp hlimit) 0 .index
  have hsize₁ : s₁.size = s.size := hkeeps₁.size
  have hholds₁ := h.holds.keeps hkeeps₁ List.not_mem_nil fun _ _ => List.not_mem_nil
  have hapart : D.next ∉ 0 :: D.tree.indexes := by
    rw [List.mem_cons, not_or]
    exact ⟨h.tidy.pos.ne', fun hin => lt_irrefl _ (h.tidy.nodes _ hin)⟩
  -- the directory once its tree has become the one of the shape
  have hbecomes : ∀ s', d.tree.Becomes B s₁ D.tree s' (D.enter s.size name).tree
      (D.enter s.size name).next → d.Held B s' ⟨(D.enter s.size name).tree, (D.enter s.size name).next⟩ ∧
        s.Keeps B d.cache (0 :: D.tree.indexes) s' ∧ s'.InMemory d.cache D.next (.zeros s.size) := by
    intro s' hs'
    have hpage' := hs'.keeps.memory hapart hpage
    have hkeeps := (hkeeps₁.mono fun _ hi => absurd hi List.not_mem_nil).trans hs'.keeps
    refine ⟨⟨hs'.holds, hs'.next, htidy, fun e he => ?_⟩, hkeeps, hpage'⟩
    have hrows := (TreeShape.put_dense RowFormat.entries h.roomy h.tidy.dense
      (D.newEntry name) (D.next + 1)).2
    obtain rfl | ⟨he, -⟩ := Rows.mem_insert.mp (hrows e he)
    · exact ⟨_, by rw [DirectoryShape.newEntry, DirectoryShape.index_next hlimit]; exact hpage'.shows⟩
    · exact (h.shown e he).imp fun _ hp => hkeeps.shows (h.tidy.apart e he) hp
  refine Ends.bind_ok hallocate ?_
  have hput := hholds₁.put_ends d.tree_lawful (hsize₁ ▸ h.roomy) h.tidy.ordered (D.newEntry name) hn₁
  rw [hsize₁] at hput
  refine Ends.bind (Q := fun _ s' => (D.enter s.size name).old ≠ none ∧
    d.tree.Becomes B s₁ D.tree s' (D.enter s.size name).tree (D.enter s.size name).next)
    (Ends.map (hput.mono ?_ ?_)) ?_
  · rintro old s' ⟨-, hold, hs'⟩
    exact ⟨fun hnone => by rw [DirectoryShape.enter] at hnone; exact absurd (hold.symm.trans hnone) (by simp),
      hs'⟩
  · rintro e s' (⟨error, herror, -⟩ | ⟨hfails, -⟩ | ⟨-, hold, rfl, hs'⟩)
    · rw [show d.tree.rows.fits (D.newEntry name) = Entry.checkName (encode name) from rfl,
        Entry.checkName, if_pos hshort] at herror
      cases herror
    · exact .inl hfails
    · exact .inr ⟨rfl, hold, hbecomes s' hs'⟩
  · rintro - s' ⟨hold, hs'⟩
    exact Ends.of_ok rfl ⟨rfl, hold, hbecomes s' hs'⟩

/-- The page of a name: the one that is entered under it, or a new one that is entered. -/
theorem Held.obtain_ends (h : d.Held B s D) (name : String) :
    Ends (d.obtain name) s
      (fun r s' => (D.obtain d s.size name).1 = .ok r ∧ d.Moves B s D (.obtain name) s')
      (fun e s' => B.Fails e ∨ (D.obtain d s.size name).1 = .error e ∧
        d.Moves B s D (.obtain name) s') := by
  by_cases hlong : Entry.longestName < (encode name).length
  · have hobtain : D.obtain d s.size name = (_, D) := if_pos hlong
    rw [Directory.obtain, if_pos hlong, hobtain]
    exact Ends.of_error rfl (.inr ⟨rfl, h.moves_quiet (congrArg Prod.snd hobtain) rfl (.refl s)⟩)
  rw [Directory.obtain, if_neg hlong]
  refine Ends.bind ((h.holds.find_ends d.tree_lawful h.tidy.ordered _).mono_error fun _ _ h => .inl h.1) ?_
  rintro found s₁ ⟨hfound, hquiet⟩
  obtain rfl : found = D.find? name := hfound
  have h₁ := h.quiet hquiet
  have hsize₁ : s₁.size = s.size := hquiet.keeps.size
  cases hfind : D.find? name with
  | some e =>
      have hobtain : D.obtain d s.size name = (.ok (d.rootPage e.page false), D) := by
        rw [DirectoryShape.obtain, if_neg hlong, hfind]
      rw [hobtain]
      exact Ends.of_ok rfl ⟨rfl, h.moves_quiet (congrArg Prod.snd hobtain) rfl hquiet⟩
  | none =>
      by_cases hlimit : CacheFile.indexLimit ≤ D.next
      · have hobtain : D.obtain d s.size name = (.error (.error (.outOfSpace d.cache)), D) := by
          rw [DirectoryShape.obtain, if_neg hlong, hfind]
          exact if_pos hlimit
        rw [hobtain]
        exact Ends.of_error (run_bind_error (Session.allocate_full h₁.next hlimit _ _) _)
          (.inr ⟨rfl, h.moves_quiet (congrArg Prod.snd hobtain) rfl hquiet⟩)
      · have hobtain : D.obtain d s.size name =
            (if (D.enter s.size name).old.isSome then .ok (d.rootPage (.make 0 .index D.next) true)
              else .error (.error (.outOfSpace d.cache)),
              ⟨(D.enter s.size name).tree, (D.enter s.size name).next⟩) := by
          rw [DirectoryShape.obtain, if_neg hlong, hfind]
          exact if_neg hlimit
        have hmoves : ∀ s', d.Held B s' ⟨(D.enter s.size name).tree, (D.enter s.size name).next⟩ →
            s₁.Keeps B d.cache (0 :: D.tree.indexes) s' → s'.InMemory d.cache D.next (.zeros s.size) →
            d.Moves B s D (.obtain name) s' := by
          intro s' hheld hkeeps hpage
          have hshape : ((DirectoryCall.obtain name).act d s.size D).2
              = ⟨(D.enter s.size name).tree, (D.enter s.size name).next⟩ := congrArg Prod.snd hobtain
          refine ⟨hshape.symm ▸ hheld, (hquiet.then hkeeps).mono fun i hi => List.mem_append_left _ hi,
            fun _ => hpage, fun i hi => absurd hi List.not_mem_nil, fun hok i hi hout => ?_⟩
          -- no node is lost where the page is entered
          rw [hshape] at hout
          refine absurd (DirectoryShape.mem_indexes_entered (fun hnone => ?_) (.inl hi)) hout
          rw [DirectoryCall.act, hobtain, hnone] at hok
          cases hok
        rw [hobtain]
        have henter := h₁.enter_ends hlimit (Nat.not_lt.mp hlong)
        rw [hsize₁] at henter
        refine henter.mono ?_ ?_
        · rintro r s' ⟨rfl, hold, hheld, hkeeps, hpage⟩
          exact ⟨if_pos (Option.isSome_iff_ne_none.mpr hold), hmoves s' hheld hkeeps hpage⟩
        · rintro e s' (hfails | ⟨rfl, hold, hheld, hkeeps, hpage⟩)
          · exact .inl hfails
          · refine .inr ⟨?_, hmoves s' hheld hkeeps hpage⟩
            rw [hold]
            rfl

/-! ### Taking a page out -/

/-- The entry of a name is taken out and its page freed. -/
lemma Held.remove_ends (h : d.Held B s D) (hfind : D.find? name = some e) {p : Page}
    (hp : s.InMemory d.cache e.page.index p) :
    Ends (do
        discard <| d.tree.remove (searchKey name)
        Session.free d.cache e.page
        return some (d.rootPage e.page false) : SessionM δ (Option RootPage)) s
      (fun r s' => r = some (d.rootPage e.page false) ∧
        d.Held B s' ⟨(D.tree.remove Entry.key (searchKey name)).2, D.next⟩ ∧
        s.Keeps B d.cache (0 :: D.tree.indexes ++ [e.page.index]) s' ∧
        s'.Freed d.cache e.page.index ∧ s'.Released d.cache D.tree.indexes
          (D.tree.remove Entry.key (searchKey name)).2.indexes)
      (fun e _ => B.Fails e) := by
  obtain ⟨he, hkey⟩ := h.tidy.find?_eq_some.mp hfind
  have hout := h.tidy.apart e he
  have htidy := h.tidy.remove (searchKey name)
  have hrows := (TreeShape.remove_ordered h.tidy.ordered (searchKey name)).2.2
  refine Ends.bind (Q := fun _ s₁ => d.tree.Shrinks B s D.tree s₁
    (D.tree.remove Entry.key (searchKey name)).2 D.next) (Ends.map ((h.holds.remove_ends d.tree_lawful
      h.tidy.ordered (searchKey name) h.next).mono_ok fun _ _ h => h.2)) ?_
  rintro - s₁ hshrinks
  have hp₁ := hshrinks.keeps.memory hout hp
  rw [List.mem_cons, not_or] at hout
  obtain ⟨s₂, hfree, hkeeps₂, hfreed, hn₂⟩ := Session.free_memory (B := B) hp₁ hout.1
  have hheld₁ : d.Held B s₁ ⟨(D.tree.remove Entry.key (searchKey name)).2, D.next⟩ := by
    refine ⟨hshrinks.holds, hshrinks.next, htidy, fun e' he' => ?_⟩
    rw [hrows] at he'
    have hin := (Rows.mem_erase.mp he').1
    exact (h.shown e' hin).imp fun _ hp' => hshrinks.keeps.shows (h.tidy.apart e' hin) hp'
  have hkeeps : s.Keeps B d.cache (0 :: D.tree.indexes ++ [e.page.index]) s₂ :=
    (hshrinks.keeps.mono fun i hi => List.mem_append_left _ hi).trans
      (hkeeps₂.mono fun i hi => List.mem_append_right _ hi)
  refine Ends.bind_ok hfree (Ends.of_ok rfl ⟨rfl, ?_, hkeeps, hfreed, ?_⟩)
  · refine hheld₁.keeps hkeeps₂ (hn₂.trans hshrinks.next) (fun i hi hin => ?_) fun e' he' hin => ?_
    · obtain rfl := List.mem_singleton.mp hin
      exact (List.mem_cons.mp hi).elim hout.1 fun hi => hout.2 (hshrinks.sub _ hi)
    · -- an entry that is left is another one, with another page
      rw [hrows] at he'
      obtain ⟨hin', hne⟩ := Rows.mem_erase.mp he'
      exact hne (h.tidy.distinct e' hin' e he (List.mem_singleton.mp hin) ▸ hkey)
  · exact fun i hi hgone => hkeeps₂.still
      (fun hin => hout.2 (List.mem_singleton.mp hin ▸ hi)) (hshrinks.released i hi hgone)

/-- A name is taken out and its page freed, if the name is entered. -/
theorem Held.drop_ends (h : d.Held B s D) (name : String) :
    Ends (d.drop name) s
      (fun r s' => (D.drop d name).1 = r ∧ d.Moves B s D (.drop name) s')
      (fun e _ => B.Fails e) := by
  by_cases hlong : Entry.longestName < (encode name).length
  · have hdrop : D.drop d name = (none, D) := if_pos hlong
    rw [Directory.drop, if_pos hlong, hdrop]
    refine Ends.of_ok rfl ⟨rfl, h.moves_quiet (congrArg Prod.snd hdrop) ?_ (.refl s)⟩
    rw [DirectoryCall.act, hdrop]
    rfl
  rw [Directory.drop, if_neg hlong]
  refine Ends.bind ((h.holds.find_ends d.tree_lawful h.tidy.ordered _).mono_error fun _ _ h => h.1) ?_
  rintro found s₁ ⟨hfound, hquiet⟩
  obtain rfl : found = D.find? name := hfound
  have h₁ := h.quiet hquiet
  -- A name that is not entered is not looked for any further. One that is has its page pinned
  -- before the entry goes, so the page is there to be freed.
  cases hfind : D.find? name with
  | none =>
      have hdrop : D.drop d name = (none, D) := by
        rw [DirectoryShape.drop, if_neg hlong, hfind]
      rw [hdrop]
      refine Ends.of_ok rfl ⟨rfl, h.moves_quiet (congrArg Prod.snd hdrop) ?_ hquiet⟩
      rw [DirectoryCall.act, hdrop]
      rfl
  | some e =>
      have hdrop : D.drop d name = (some (d.rootPage e.page false),
          ⟨(D.tree.remove Entry.key (searchKey name)).2, D.next⟩) := by
        rw [DirectoryShape.drop, if_neg hlong, hfind]
      have hact : (DirectoryCall.drop name).act d s.size D
          = (.ok (.root (some (d.rootPage e.page false))),
            ⟨(D.tree.remove Entry.key (searchKey name)).2, D.next⟩) := by
        rw [DirectoryCall.act, hdrop]
      obtain ⟨he, -⟩ := h.tidy.find?_eq_some.mp hfind
      obtain ⟨p, hp⟩ := h₁.shown e he
      rw [hdrop]
      refine Ends.bind (Q := fun _ s₂ => s₂.InMemory d.cache e.page.index p ∧ s₁.Quiet B d.cache s₂)
        (Ends.map ((Session.frame_ends hp).mono (fun _ _ h => ⟨h.1.memory, h.2⟩) fun _ _ h => h.1)) ?_
      rintro - s₂ ⟨hp₂, hquiet₂⟩
      refine ((h₁.quiet hquiet₂).remove_ends hfind hp₂).mono_ok ?_
      rintro _ s₃ ⟨rfl, hheld, hkeeps, hfreed, hreleased⟩
      refine ⟨rfl, ?_, ?_, ?_, ?_, ?_⟩ <;> rw [hact]
      · exact hheld
      · exact (hquiet.trans hquiet₂).then hkeeps
      · exact fun hlt => absurd hlt (lt_irrefl _)
      · exact fun i hi => List.mem_singleton.mp hi ▸ hfreed
      · exact fun _ => hreleased

/-! ### Reading -/

/-- The entries are listed, unless the device fails. -/
lemma Held.entries_ends (h : d.Held B s D) :
    Ends d.entries s (fun es s' => es = D.tree.rows ∧ s.Quiet B d.cache s') (fun e _ => B.Fails e) :=
  h.holds.toList_ends d.tree_lawful h.tidy.ordered

/-- The names are listed, unless the device fails. -/
lemma Held.names_ends (h : d.Held B s D) :
    Ends d.names s
      (fun names s' => names = D.tree.rows.map (fun e => Text.decodeLossy e.name) ∧
        s.Quiet B d.cache s')
      (fun e _ => B.Fails e) := by
  refine h.entries_ends.bind ?_
  rintro _ s' ⟨rfl, hquiet⟩
  exact Ends.of_ok rfl ⟨rfl, hquiet⟩

/-- The entries are counted, unless the device fails. -/
lemma Held.size_ends (h : d.Held B s D) :
    Ends d.size s (fun n s' => n = D.tree.rows.length ∧ s.Quiet B d.cache s') (fun e _ => B.Fails e) :=
  h.holds.size_ends d.tree_lawful h.tidy.ordered

/-! ### Every call -/

/-- A call is answered as the shape says and leaves what the shape becomes, or a page could not
be loaded. -/
theorem Held.step_ends (h : d.Held B s D) (call : DirectoryCall) :
    Ends (call.step d) s
      (fun a s' => (call.act d s.size D).1 = .ok a ∧ d.Moves B s D call s')
      (fun e s' => B.Fails e ∨ (call.act d s.size D).1 = .error e ∧ d.Moves B s D call s') := by
  cases call with
  | obtain name =>
      refine Ends.map ((h.obtain_ends name).mono ?_ ?_)
      · exact fun r s' hr => ⟨by rw [DirectoryCall.act, hr.1]; rfl, hr.2⟩
      · exact fun e s' he => he.imp_right fun he => ⟨by rw [DirectoryCall.act, he.1]; rfl, he.2⟩
  | drop name =>
      refine Ends.map ((h.drop_ends name).mono ?_ fun _ _ hfails => .inl hfails)
      exact fun r s' hr => ⟨by rw [DirectoryCall.act, hr.1], hr.2⟩
  | entries =>
      refine Ends.map (h.entries_ends.mono ?_ fun _ _ hfails => .inl hfails)
      rintro _ s' ⟨rfl, hquiet⟩
      exact ⟨rfl, h.moves_quiet rfl rfl hquiet⟩
  | names =>
      refine Ends.map (h.names_ends.mono ?_ fun _ _ hfails => .inl hfails)
      rintro _ s' ⟨rfl, hquiet⟩
      exact ⟨rfl, h.moves_quiet rfl rfl hquiet⟩
  | size =>
      refine Ends.map (h.size_ends.mono ?_ fun _ _ hfails => .inl hfails)
      rintro _ s' ⟨rfl, hquiet⟩
      exact ⟨rfl, h.moves_quiet rfl rfl hquiet⟩

/-! ### The cache of a directory -/

section Within

open Session

/-- Entries are written without a page growing or shrinking. -/
lemma tree_steady (d : Directory) : d.tree.rows.Steady := d.tree_supported.steady

/-- Opening a directory keeps to its cache. -/
lemma start_within (c : CacheId) : Within c (Directory.start c : SessionM δ Directory) :=
  (Tree.start_within (t := (⟨c⟩ : Directory).tree) none).bind fun _ => .pure _

variable (d)

/-- Obtaining a page keeps to the cache of the directory. -/
lemma obtain_within (name : String) : Within d.cache (d.obtain name : SessionM δ RootPage) := by
  rw [Directory.obtain]
  split
  on_goal 1 => refine (Within.throw _).bind fun _ => ?_
  all_goals
    refine (d.tree.find?_within _).bind fun found => ?_
    cases found with
    | some e => exact .pure _
    | none =>
        exact (Within.allocate _ _).bind fun page =>
          ((Tree.put_within d.tree_steady _).map _).bind fun _ => .pure _

/-- Dropping a name keeps to the cache of the directory. -/
lemma drop_within (name : String) : Within d.cache (d.drop name : SessionM δ (Option RootPage)) := by
  rw [Directory.drop]
  refine .ite (.pure _) ((d.tree.find?_within _).bind fun found => ?_)
  cases found with
  | none => exact .pure _
  | some e =>
      exact ((Within.frame e.page).map _).bind fun _ =>
        ((Tree.remove_within (t := d.tree) _).map _).bind fun _ =>
          (Within.free e.page).bind fun _ => .pure _

/-- A call of a directory asks for pages of its cache alone. -/
theorem step_within (call : DirectoryCall) :
    Within d.cache (call.step d : SessionM δ DirectoryAnswer) := by
  cases call with
  | obtain name => exact (d.obtain_within name).map _
  | drop name => exact (d.drop_within name).map _
  | entries => exact d.tree.toList_within.map _
  | names => exact Within.map (d.tree.toList_within.bind fun _ => .pure _) _
  | size => exact d.tree.size_within.map _

end Within

/-! ### A new directory -/

/-- The shape of a directory that was made in a cache with `n` pages. -/
def blankShape (n : ℕ) : DirectoryShape := ⟨⟨0, .leaf (RowFormat.entries.nodeId n) []⟩, n + 1⟩

/-- A tree that was just made is a directory without entries. -/
lemma held_blank {n : ℕ} (hT : d.tree.Holds B s (blankShape n).tree) (hn : s.next? d.cache = some (n + 1)) :
    d.Held B s (blankShape n) := by
  have hempty : ∀ e, e ∉ (blankShape n).tree.rows := fun _ => List.not_mem_nil
  exact ⟨hT, hn, ⟨⟨⟨List.Pairwise.nil, by simp⟩, fun hne => absurd rfl hne⟩, Nat.succ_pos n,
    fun i hi => hT.lt_next hn hi, fun e he => absurd he (hempty e), fun e he => absurd he (hempty e),
    fun e he => absurd he (hempty e)⟩, fun e he => absurd he (hempty e)⟩

/-- A directory that was made anew is held in memory. -/
lemma held_of_start {folder : String} {options : Options} {e e' : δ} {store : PageStore}
    (hstore : Session.start folder options e = (.ok store, e')) {c : CacheId} {root : PageId}
    {s₁ : Session δ} (hroot : (⟨c⟩ : Directory).tree.root ⟨e', store⟩ = (.ok root, s₁))
    (hword : root.word = 0) (hstart : Directory.start c ⟨e', store⟩ = (.ok d, s)) :
    d = ⟨c⟩ ∧ ∃ n, s₁.next? c = some n ∧ d.Held (.none δ) s (blankShape n) ∧
      s₁.Keeps (.none δ) c [0] s := by
  rcases hmade : (⟨c⟩ : Directory).tree.start none ⟨e', store⟩ with ⟨_ | ⟨⟩, s'⟩
  · rw [Directory.start, run_bind_error hmade] at hstart
    cases hstart
  · rw [Directory.start, run_bind_ok hmade] at hstart
    cases hstart
    obtain ⟨n, hn₁, hn, hT, hkeeps⟩ := Tree.start_fresh (Directory.tree_lawful ⟨c⟩)
      (Session.size_of_start hstore) hroot hword hmade
    exact ⟨rfl, n, hn₁, held_blank hT hn, hkeeps⟩

end Directory

end PageCatalog
