import Mathlib.Tactic
import PageCatalog.Directory
import PageCatalog.Proofs.Tree.OrderedMap

/-!
What a failed insertion leaves of a tree.

An insertion fails because the row does not fit, because the device fails, or because the
cache has no index left for a new page. The tree is as it was in the first two cases. In
the third one it is so only if there was no index at all: a full node is cut as soon as it
has a page for its right half, and if the node above it or the root cannot get a page of
its own after that, nothing leads to the right half any more.

* `Tree.Reads`: what is read from a tree.
* `TreeShape.Remains`: what is left of a shape.
* `Tree.Inserts`: the computations that put a row into a tree; `Inserts.ends`.
* `Tree.reads_of_failed`: what is read after one of them has failed.
-/

namespace PageCatalog

/-- An error of an insertion that lacks an index while the cache, with `n` pages, had one to
begin with. -/
def Failure.IsLate (e : Failure) (c : CacheId) (n : ℕ) : Prop :=
  e = .error (.outOfSpace c) ∧ n < CacheFile.indexLimit

lemma Failure.IsIo.not_isLate {e : Failure} (h : e.IsIo) (c : CacheId) (n : ℕ) :
    ¬ e.IsLate c n := by
  rintro ⟨rfl, -⟩
  obtain ⟨io, hio⟩ := h
  cases hio

section Remains

variable {ρ κ : Type} [LinearOrder κ] {key : ρ → κ} {T T' : TreeShape ρ} {lost : Prop}

/-- What is left of a tree: all of it, or all but some rows. -/
structure TreeShape.Remains (key : ρ → κ) (T T' : TreeShape ρ) (lost : Prop) : Prop where
  ordered : T'.Ordered key
  root : T'.top.id = T.top.id
  height : T'.height = T.height
  whole : ¬ lost → T' = T
  gap : lost → ∃ q ∈ T.rows, Rows.lookup key q T'.rows = none

lemma TreeShape.Remains.of_whole (hordered : T.Ordered key) (hlost : ¬ lost) :
    T.Remains key T lost :=
  ⟨hordered, rfl, rfl, fun _ => rfl, fun h => absurd h hlost⟩

end Remains

namespace Tree

variable {ρ κ δ : Type} [LinearOrder κ] [Device δ]

/-- What is read from a tree: its root, its level, the rows that are found and those that
a visitor meets. Every read has this answer, unless the device fails. -/
structure Reads (t : Tree ρ) (key : ρ → κ) (s : Session δ) (root : PageId) (level : ℕ)
    (rows : List ρ) : Prop where
  root : Ends t.root s (fun id _ => id = root) (fun e _ => e.IsIo)
  level : Ends t.level s (fun n _ => n = level) (fun e _ => e.IsIo)
  find : ∀ row, Ends (t.find? row) s (fun r _ => r = Rows.lookup key row rows) (fun e _ => e.IsIo)
  visit : ∀ {β : Type} (visit : β → ρ → Except Error β) (b : β),
    Ends (do t.walk visit b (← t.reach)) s
      (fun r _ => (∃ e, r.2 = .error e ∧ e.IsIo) ∨ r.1 = (Rows.visit visit b rows).1 ∧
        r.2 = (Rows.visit visit b rows).2.mapError Failure.error)
      (fun _ _ => False)

variable {B : Backing δ} {t : Tree ρ} {key : ρ → κ} {s s' : Session δ} {T : TreeShape ρ} {n : ℕ}

/-- A tree in order is read as its rows are. -/
lemma Holds.reads (hR : t.rows.Lawful key) (hT : t.Holds B s T) (hordered : T.Ordered key) :
    t.Reads key s T.top.id T.height T.rows where
  root := hT.root_ends.mono (fun _ _ h => h.1) fun _ _ h => h.1.isIo
  level := hT.level_ends.mono (fun _ _ h => h.1) fun _ _ h => h.1.isIo
  find row := (hT.find_ends hR hordered row).mono (fun _ _ h => h.1) fun _ _ h => h.1.isIo
  visit visit b := by
    obtain ⟨n, hn⟩ := hT.exists_next
    have hlt := hT.height_lt hordered hn
    refine Ends.bind_ok (reach_run hn) ((hT.walk_ends hR visit b (by omega)).mono_ok ?_)
    exact fun _ _ h => h.imp (fun ⟨e, he, hfails⟩ => ⟨e, he, hfails.isIo⟩) fun h => h.1

/-! ### Insertions -/

/-- What is left after a failed put: the tree lacks rows only if the cache had an index for
the first page that was asked for. -/
lemma Holds.put_remains (hR : t.rows.Supported key) (hT : t.Holds B s T) (hproper : T.Proper key)
    (row : ρ) (hn : s.next? t.cache = some n) :
    Ends (t.put row) s (fun _ _ => True)
      (fun e s' => ∃ T', t.Holds B s' T' ∧ T.Remains key T' (e.IsLate t.cache n)) := by
  have hroomy := hR.roomy hT.size.1
  refine (hT.put_ends hR.lawful hroomy hproper.ordered row hn).mono (fun _ _ _ => trivial) ?_
  rintro e s' (⟨error, hfits, rfl, rfl⟩ | ⟨hfails, hquiet⟩ | ⟨-, hold, rfl, hbecomes⟩)
  · refine ⟨T, hT, .of_whole hproper.ordered ?_⟩
    rintro ⟨hspace, -⟩
    exact hR.fits_ne hfits t.cache (Failure.error.inj hspace)
  · exact ⟨T, hT.quiet hquiet, .of_whole hproper.ordered (hfails.isIo.not_isLate t.cache n)⟩
  · obtain ⟨hordered, hheight, hroot, hwhole, hgap⟩ := TreeShape.put_missing t.rows hroomy hproper.dense hold
    refine ⟨_, hbecomes.holds, hordered, hroot, hheight, fun hlate => hwhole ?_, fun hlate => hgap hlate.2⟩
    exact Nat.not_lt.mp fun hlt => hlate ⟨rfl, hlt⟩

/-- What is left of a directory that could not enter a name. The page of the name takes an
index before the tree needs one. -/
lemma Holds.obtain_remains {d : Directory} {key : Entry → κ} {T : TreeShape Entry}
    (hR : d.tree.rows.Supported key) (hT : d.tree.Holds B s T) (hproper : T.Proper key) (name : String)
    (hn : s.next? d.cache = some n) :
    Ends (d.obtain name) s (fun _ _ => True)
      (fun e s' => ∃ T', d.tree.Holds B s' T' ∧ T.Remains key T' (e.IsLate d.cache (n + 1))) := by
  rw [Directory.obtain]
  split
  · refine Ends.of_error rfl ⟨T, hT, .of_whole hproper.ordered ?_⟩
    rintro ⟨hlong, -⟩
    cases hlong
  refine Ends.bind ((hT.find_ends hR.lawful hproper.ordered _).mono_error ?_) ?_
  · exact fun e s' h => ⟨T, hT.quiet h.2, .of_whole hproper.ordered (h.1.isIo.not_isLate _ _)⟩
  rintro r s₁ ⟨-, hquiet⟩
  have hn₁ : s₁.next? d.cache = some n := hquiet.next.trans hn
  cases r with
  | some e => trivial
  | none =>
      by_cases hlimit : CacheFile.indexLimit ≤ n
      · refine Ends.of_error (run_bind_error (Session.allocate_full hn₁ hlimit _ _) _)
          ⟨T, hT.quiet hquiet, .of_whole hproper.ordered ?_⟩
        rintro ⟨-, hlt⟩
        omega
      · obtain ⟨s₂, hallocate, -, hkeeps, hn₂⟩ := Session.allocate_ok (B := B) hn₁
          (Nat.not_le.mp hlimit) 0 .index
        have hT₂ : d.tree.Holds B s₂ T :=
          (hT.quiet hquiet).keeps hkeeps List.not_mem_nil fun _ _ => List.not_mem_nil
        refine Ends.bind_ok hallocate (Ends.bind (Q := fun _ _ => True) ?_ fun _ _ _ => trivial)
        exact Ends.map (hT₂.put_remains hR hproper _ hn₂)

/-- The computations that put a row into a tree, with the number of pages that they take for
something else before. -/
inductive Inserts : {ρ α : Type} → Tree ρ → SessionM δ α → ℕ → Prop
  | put {ρ : Type} (t : Tree ρ) (row : ρ) : Inserts t (t.put row) 0
  | obtain (d : Directory) (name : String) : Inserts d.tree (d.obtain name) 1

lemma Inserts.ends {α : Type} {m : SessionM δ α} {k : ℕ} (h : Inserts t m k)
    (hR : t.rows.Supported key) (hT : t.Holds B s T) (hproper : T.Proper key)
    (hn : s.next? t.cache = some n) :
    Ends m s (fun _ _ => True)
      (fun e s' => ∃ T', t.Holds B s' T' ∧ T.Remains key T' (e.IsLate t.cache (n + k))) := by
  cases h with
  | put _ row => exact hT.put_remains hR hproper row hn
  | obtain d name => exact hT.obtain_remains hR hproper name hn

/-- After a failed insertion into a tree in order, the root and the level are read as before,
and so are all rows, unless the cache, with an index left for a page of a node, had none for
a further one; a row has gone from the tree then. -/
theorem reads_of_failed {α : Type} {m : SessionM δ α} {k : ℕ} (hm : Inserts t m k)
    (hR : t.rows.Supported key) (hT : t.Holds (.steady δ) s T) (hproper : T.Proper key)
    (hn : (Session.pageCount t.cache s).1 = .ok n) {e : Failure} (hfail : m s = (.error e, s')) :
    t.Reads key s T.top.id T.height T.rows ∧
      ∃ rows, t.Reads key s' T.top.id T.height rows ∧
        (¬ e.IsLate t.cache (n + k) → rows = T.rows) ∧
        (e.IsLate t.cache (n + k) → ∃ q ∈ T.rows, Rows.lookup key q rows = none) := by
  obtain ⟨n', hn'⟩ := hT.exists_next
  obtain rfl : n' = n := by
    rw [Session.pageCount_run hn'] at hn
    exact Except.ok.inj hn
  obtain ⟨T', hT', hordered, hroot, hheight, hwhole, hgap⟩ :=
    (hm.ends hR hT hproper hn').error hfail
  refine ⟨hT.reads hR.lawful hproper.ordered, T'.rows, ?_, fun hlate => by rw [hwhole hlate], hgap⟩
  rw [← hroot, ← hheight]
  exact hT'.reads hR.lawful hordered

/-- A store whose cache has two indexes left. -/
def nearlyFull : Session MemoryDisk where
  device := ⟨.empty⟩
  store :=
    { folder := "store"
      options := { pageSize := 512 }
      caches := (∅ : Std.TreeMap CacheId CacheFile).insert 1
        { path := "store/cache-1.pages", next := CacheFile.indexLimit - 2 } }

/-- A number is lost when another one cannot be put: its leaf is cut with the last index, and
none is left for a root above the two halves. -/
theorem reads_of_failed_third_put :
    ∃ s s' : Session MemoryDisk, numbers.put 3 s = (.error (.error (.outOfSpace 1)), s') ∧
      (numbers.find? 2 s).1 = .ok (some 2) ∧ (numbers.find? 2 s').1 = .ok none ∧
      ∃ root level rows rows', numbers.Reads RowFormat.keyOrder s root level rows ∧
        numbers.Reads RowFormat.keyOrder s' root level rows' ∧
        ∃ q ∈ rows, Rows.lookup RowFormat.keyOrder q rows' = none := by
  -- the session is hidden, so that nothing evaluates it again
  obtain ⟨s, rows, ⟨T, hT, hproper, -⟩, hcount, hput, hbefore, hafter⟩ :
      ∃ (s : Session MemoryDisk) (rows : List UInt64), numbers.HoldsRows RowFormat.keyOrder s rows ∧
        (Session.pageCount 1 s).1 = .ok (CacheFile.indexLimit - 1) ∧
        (numbers.put 3 s).1 = .error (.error (.outOfSpace 1)) ∧
        (numbers.find? 2 s).1 = .ok (some 2) ∧
        (numbers.find? 2 (numbers.put 3 s).2).1 = .ok none := by
    obtain ⟨⟨⟩, hstart⟩ := run_of_isOk (show (numbers.start (some true) nearlyFull).1.isOk = true by
      decide +kernel)
    have hempty := holdsRows_new numbers_supported (by decide) hstart
    have hone := hempty.put_of_isOk numbers_supported (show (numbers.put 1 _).1.isOk = true by decide +kernel)
    have htwo := hone.put_of_isOk numbers_supported (show (numbers.put 2 _).1.isOk = true by decide +kernel)
    exact ⟨_, _, htwo, by decide +kernel, by decide +kernel, by decide +kernel, by decide +kernel⟩
  have hfail : numbers.put 3 s = (.error (.error (.outOfSpace 1)), (numbers.put 3 s).2) :=
    Prod.ext hput rfl
  obtain ⟨hreads, rows', hreads', -, hlost⟩ :=
    reads_of_failed (.put numbers 3) numbers_supported hT.steady hproper hcount hfail
  exact ⟨s, _, hfail, hbefore, hafter, _, _, _, rows', hreads, hreads', hlost ⟨rfl, by decide⟩⟩

end Tree

end PageCatalog
