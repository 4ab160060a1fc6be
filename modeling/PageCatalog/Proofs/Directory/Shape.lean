import Mathlib.Tactic
import PageCatalog.Directory
import PageCatalog.Proofs.Rows.Lawful
import PageCatalog.Proofs.Tree.Growth
import PageCatalog.Proofs.Tree.Shrink

/-!
Shapes of directories.

A shape is what a directory looks like apart from the bytes of its pages: the shape of its
tree, and the index of the next page. The answer to a call and the shape after it follow from
the shape before it, and from nothing else.

The pages of the entries and the nodes of the tree are taken from the same cache. They stay
apart because a new page has an index that no page had.

* `DirectoryCall`, `DirectoryAnswer`: what may be asked, and what is given back.
* `DirectoryShape`, `DirectoryCall.act`: the answer to a call and the shape after it.
* `DirectoryShape.Tidy`: entries, nodes and the meta page apart from each other; `Tidy.enter`,
  `Tidy.remove`.
* `DirectoryCall.mem_indexes_act`: where nodes come from.
* `DirectoryShape.Uses`, `DirectoryCall.uses_act`, `DirectoryCall.uses_new`: no page is lost.
-/

namespace PageCatalog

/-- What is asked of a directory. -/
inductive DirectoryCall where
  | obtain (name : String)
  | drop (name : String)
  | entries
  | names
  | size

/-- What a directory gives back. -/
inductive DirectoryAnswer where
  | root (r : Option RootPage)
  | entries (es : List Entry)
  | names (names : List String)
  | number (n : ℕ)

/-- What a directory looks like apart from the bytes of its pages. -/
structure DirectoryShape where
  tree : TreeShape Entry
  /-- The index of the next page of the cache. -/
  next : ℕ

namespace DirectoryShape

open Directory

variable (d : Directory) (size : ℕ) (name : String) (D : DirectoryShape)

/-- The entry of a name. -/
def find? : Option Entry := Rows.lookup Entry.key (searchKey name) D.tree.rows

/-- The entry of a name with the next page. -/
def newEntry : Entry := ⟨encode name, .make 0 .index D.next⟩

/-- The tree after the next page was entered under a name. Pages are `size` bytes long. -/
def enter : TreeGrown Entry :=
  D.tree.put .entries Entry.key size (D.newEntry name) (D.next + 1)

/-- The page of a name, and the shape after it was asked for. -/
def obtain : Except Failure RootPage × DirectoryShape :=
  if Entry.longestName < (encode name).length then
    (.error (.error (.nameTooLong Entry.longestName (encode name).length name)), D)
  else match D.find? name with
    | some e => (.ok (d.rootPage e.page false), D)
    | none =>
      if CacheFile.indexLimit ≤ D.next then (.error (.error (.outOfSpace d.cache)), D)
      else
        (if (D.enter size name).old.isSome then .ok (d.rootPage (.make 0 .index D.next) true)
          else .error (.error (.outOfSpace d.cache)),
          ⟨(D.enter size name).tree, (D.enter size name).next⟩)

/-- The page that a name had, and the shape without the name. -/
def drop : Option RootPage × DirectoryShape :=
  if Entry.longestName < (encode name).length then (none, D)
  else match D.find? name with
    | none => (none, D)
    | some e =>
      (some (d.rootPage e.page false), ⟨(D.tree.remove Entry.key (searchKey name)).2, D.next⟩)

end DirectoryShape

namespace DirectoryCall

open DirectoryShape

/-- The answer to a call, and the shape after it. -/
def act (d : Directory) (size : ℕ) (D : DirectoryShape) :
    DirectoryCall → Except Failure DirectoryAnswer × DirectoryShape
  | obtain name => ((D.obtain d size name).1.map fun r => .root (some r), (D.obtain d size name).2)
  | drop name => (.ok (.root (D.drop d name).1), (D.drop d name).2)
  | entries => (.ok (.entries D.tree.rows), D)
  | names => (.ok (.names (D.tree.rows.map fun e => Text.decodeLossy e.name)), D)
  | .size => (.ok (.number D.tree.rows.length), D)

/-- The index of the page that an answer says is dropped. -/
def dropped : DirectoryCall → Except Failure DirectoryAnswer → List ℕ
  | drop _, .ok (.root (some r)) => [r.address.page.index]
  | _, _ => []

end DirectoryCall

/-! ### Pages of their own -/

namespace DirectoryShape

open Directory

variable {d : Directory} {size : ℕ} {name : String} {D : DirectoryShape}

/-- The meta page, the nodes of the tree and the pages of the entries are different pages of
the cache. -/
structure Tidy (D : DirectoryShape) : Prop where
  dense : D.tree.Dense Entry.key
  pos : 0 < D.next
  nodes : ∀ i ∈ D.tree.indexes, i < D.next
  below : ∀ e ∈ D.tree.rows, e.page.index < D.next
  apart : ∀ e ∈ D.tree.rows, e.page.index ∉ 0 :: D.tree.indexes
  distinct : ∀ e ∈ D.tree.rows, ∀ e' ∈ D.tree.rows, e.page.index = e'.page.index → e = e'

/-- A page of the cache is the meta page, that of a node or that of an entry. -/
def Uses (D : DirectoryShape) (i : ℕ) : Prop :=
  i ∈ 0 :: D.tree.indexes ∨ ∃ e ∈ D.tree.rows, e.page.index = i

lemma Tidy.ordered (h : D.Tidy) : D.tree.Ordered Entry.key := h.dense.ordered

lemma key_newEntry (name : String) (D : DirectoryShape) :
    Entry.key (D.newEntry name) = Entry.key (searchKey name) := by
  rw [Entry.key, Entry.key, newEntry, searchKey]

/-- An entry that is found is one of the rows. -/
lemma Tidy.find?_eq_some (h : D.Tidy) {e : Entry} :
    D.find? name = some e ↔ e ∈ D.tree.rows ∧ Entry.key e = Entry.key (searchKey name) :=
  Rows.lookup_eq_some h.ordered.ascending

/-- The index of a page that can be taken. -/
lemma index_next (hlimit : ¬ CacheFile.indexLimit ≤ D.next) :
    (PageId.make 0 .index D.next).index = D.next := by
  rw [PageId.index_make]
  exact Nat.mod_eq_of_lt (by rw [CacheFile.indexLimit] at hlimit; omega)

/-! #### Entering a page -/

lemma next_lt_enter (size : ℕ) (name : String) (D : DirectoryShape) :
    D.next < (D.enter size name).next :=
  (TreeShape.count_put_le _ Entry.key size D.tree (D.newEntry name) (D.next + 1)).1

/-- Nodes of the tree are those of before, and some behind the page that was entered. -/
lemma mem_indexes_enter {i : ℕ} (hi : i ∈ (D.enter size name).tree.indexes) :
    i ∈ D.tree.indexes ∨ D.next < i ∧ i < (D.enter size name).next := by
  have hcount := (TreeShape.count_put_le .entries Entry.key size D.tree (D.newEntry name) (D.next + 1)).2 i
  have hpos := (List.count_pos_iff.mpr hi).trans_le hcount
  by_contra hno
  rw [not_or] at hno
  have hold := List.count_eq_zero.mpr hno.1
  rw [Shape.fresh, hold, if_neg fun h => hno.2 ⟨h.1, h.2⟩] at hpos
  omega

/-- If the page is entered, no node is lost, and all pages behind it are nodes. -/
lemma mem_indexes_entered (hold : (D.enter size name).old ≠ none) {i : ℕ}
    (hi : i ∈ D.tree.indexes ∨ D.next < i ∧ i < (D.enter size name).next) :
    i ∈ (D.enter size name).tree.indexes := by
  obtain ⟨lost, hlost, -, hcount⟩ := TreeShape.accounted_put RowFormat.entries Entry.key size D.tree
    (D.newEntry name) (D.next + 1)
  obtain rfl : lost = [] := hlost hold
  have := hcount i
  rw [List.count_nil, Nat.add_zero] at this
  refine List.count_pos_iff.mp (this ▸ ?_)
  obtain hi | hi := hi
  · exact Nat.add_pos_left (List.count_pos_iff.mpr hi) _
  · rw [Shape.fresh, if_pos ⟨hi.1, hi.2⟩]
    exact Nat.succ_pos _

/-- A new page is entered under a new name. -/
lemma Tidy.enter (h : D.Tidy) (hroomy : RowFormat.entries.Roomy size)
    (hlimit : ¬ CacheFile.indexLimit ≤ D.next) (name : String) :
    Tidy ⟨(D.enter size name).tree, (D.enter size name).next⟩ := by
  have hindex := index_next hlimit
  have hlt := next_lt_enter size name D
  obtain ⟨hdense, hrows⟩ := TreeShape.put_dense RowFormat.entries hroomy h.dense
    (D.newEntry name) (D.next + 1)
  -- the rows are the new entry and some of those before
  have hcases : ∀ e ∈ (D.enter size name).tree.rows,
      e.page.index = D.next ∧ e = D.newEntry name ∨ e ∈ D.tree.rows := by
    intro e he
    obtain rfl | ⟨he, -⟩ := Rows.mem_insert.mp (hrows e he)
    · exact .inl ⟨hindex, rfl⟩
    · exact .inr he
  refine ⟨hdense, Nat.zero_lt_of_lt hlt, fun i hi => ?_, fun e he => ?_, fun e he hin => ?_,
    fun a ha b hb hab => ?_⟩
  · obtain hi | hi := mem_indexes_enter hi
    · exact (h.nodes i hi).trans hlt
    · exact hi.2
  · obtain ⟨he, -⟩ | he := hcases e he
    · exact he.trans_lt hlt
    · exact (h.below e he).trans hlt
  · obtain hzero | hin := List.mem_cons.mp hin
    · obtain ⟨he, -⟩ | he := hcases e he
      · exact h.pos.ne' (he.symm.trans hzero)
      · exact h.apart e he (List.mem_cons.mpr (.inl hzero))
    · obtain ⟨he, -⟩ | he := hcases e he
      · rw [he] at hin
        obtain hin | hin := mem_indexes_enter hin
        · exact lt_irrefl _ (h.nodes _ hin)
        · exact lt_irrefl _ hin.1
      · obtain hin | hin := mem_indexes_enter hin
        · exact h.apart e he (List.mem_cons_of_mem 0 hin)
        · exact (h.below e he).asymm hin.1
  · obtain ⟨ha, rfl⟩ | ha := hcases a ha
    · obtain ⟨-, rfl⟩ | hb := hcases b hb
      · rfl
      · exact absurd (hab.symm.trans ha) (h.below b hb).ne
    · obtain ⟨hb, -⟩ | hb := hcases b hb
      · exact absurd (hab.trans hb) (h.below a ha).ne
      · exact h.distinct a ha b hb hab

/-! #### Taking a page out -/

/-- A name is taken out of a shape. -/
lemma Tidy.remove (h : D.Tidy) (e : Entry) : Tidy ⟨(D.tree.remove Entry.key e).2, D.next⟩ := by
  have hrows := (TreeShape.remove_ordered h.ordered e).2.2
  have hsub : ∀ i ∈ (D.tree.remove Entry.key e).2.indexes, i ∈ D.tree.indexes := fun i hi =>
    List.count_pos_iff.mp ((List.count_pos_iff.mpr hi).trans_le (TreeShape.count_remove_le D.tree e i))
  have hmem : ∀ e' ∈ (D.tree.remove Entry.key e).2.rows, e' ∈ D.tree.rows := by
    intro e' he'
    rw [hrows] at he'
    exact (Rows.mem_erase.mp he').1
  exact ⟨(TreeShape.remove_dense h.dense e).1, h.pos, fun i hi => h.nodes i (hsub i hi),
    fun e' he' => h.below e' (hmem e' he'),
    fun e' he' hin => h.apart e' (hmem e' he')
      (List.mem_cons.mpr ((List.mem_cons.mp hin).imp_right (hsub _))),
    fun a ha b hb hab => h.distinct a (hmem a ha) b (hmem b hb) hab⟩

end DirectoryShape

/-! ### One call -/

namespace DirectoryCall

open Directory DirectoryShape

variable {d : Directory} {size : ℕ} {D : DirectoryShape} {i : ℕ}

/-- The cases of a call for a page: nothing changes, or a new page is entered. -/
lemma obtain_cases (d : Directory) (size : ℕ) (D : DirectoryShape) (name : String) :
    (D.obtain d size name).2 = D ∨ D.find? name = none ∧ ¬ CacheFile.indexLimit ≤ D.next ∧
      (D.obtain d size name).2 = ⟨(D.enter size name).tree, (D.enter size name).next⟩ ∧
      ((D.obtain d size name).1.isOk = true → (D.enter size name).old ≠ none) := by
  rw [DirectoryShape.obtain]
  split
  · exact .inl rfl
  · split
    · exact .inl rfl
    · rename_i hfind
      split
      · exact .inl rfl
      · rename_i hlimit
        refine .inr ⟨hfind, hlimit, rfl, fun hok hnone => ?_⟩
        rw [hnone] at hok
        cases hok

/-- The cases of a drop: nothing changes, or an entry is taken out. -/
lemma drop_cases (d : Directory) (D : DirectoryShape) (name : String) :
    D.drop d name = (none, D) ∨ ∃ e, D.find? name = some e ∧ D.drop d name
      = (some (d.rootPage e.page false), ⟨(D.tree.remove Entry.key (searchKey name)).2, D.next⟩) := by
  rw [DirectoryShape.drop]
  split
  · exact .inl rfl
  · split
    · exact .inl rfl
    · rename_i e he
      exact .inr ⟨e, he, rfl⟩

lemma next_le_act (call : DirectoryCall) : D.next ≤ (call.act d size D).2.next := by
  cases call with
  | obtain name =>
      rw [act]
      obtain hsame | ⟨-, -, hentered, -⟩ := obtain_cases d size D name
      · rw [hsame]
      · rw [hentered]
        exact (next_lt_enter size name D).le
  | drop name =>
      rw [act]
      obtain hdrop | ⟨e, -, hdrop⟩ := drop_cases d D name <;> rw [hdrop]
  | entries => exact le_rfl
  | names => exact le_rfl
  | size => exact le_rfl

/-- Nodes of the tree are those of before, and new ones behind the page that was entered. -/
lemma mem_indexes_act (call : DirectoryCall) (hi : i ∈ (call.act d size D).2.tree.indexes) :
    i ∈ D.tree.indexes ∨ D.next < i := by
  cases call with
  | obtain name =>
      rw [act] at hi
      obtain hsame | ⟨-, -, hentered, -⟩ := obtain_cases d size D name
      · exact .inl (hsame ▸ hi)
      · rw [hentered] at hi
        exact (mem_indexes_enter hi).imp_right And.left
  | drop name =>
      rw [act] at hi
      obtain hdrop | ⟨e, -, hdrop⟩ := drop_cases d D name <;> rw [hdrop] at hi
      · exact .inl hi
      · exact .inl (List.count_pos_iff.mp ((List.count_pos_iff.mpr hi).trans_le
          (TreeShape.count_remove_le D.tree _ i)))
  | entries => exact .inl hi
  | names => exact .inl hi
  | size => exact .inl hi

/-! ### Names -/

/-- An entry stays under its name until it is dropped, or until the last index is taken. -/
lemma find?_act (h : D.Tidy) (hroomy : RowFormat.entries.Roomy size) (call : DirectoryCall)
    {name : String} {e : Entry} (hfind : D.find? name = some e) :
    e.page.index ∈ call.dropped (call.act d size D).1 ∨ (call.act d size D).2.find? name = some e ∨
      (call.act d size D).2.find? name = none ∧ CacheFile.indexLimit ≤ (call.act d size D).2.next := by
  obtain ⟨he, hkey⟩ := h.find?_eq_some.mp hfind
  cases call with
  | obtain name' =>
      right
      rw [act]
      obtain hsame | ⟨hnew, hlimit, hentered, -⟩ := obtain_cases d size D name'
      · exact .inl (hsame.symm ▸ hfind)
      rw [hentered]
      have htidy := h.enter hroomy hlimit name'
      have hne : Entry.key e ≠ Entry.key (D.newEntry name') := by
        intro heq
        rw [key_newEntry] at heq
        rw [h.find?_eq_some.mpr ⟨he, heq⟩] at hnew
        cases hnew
      cases hold : (D.enter size name').old with
      | some old =>
          have hrows := (TreeShape.put_rows RowFormat.entries hroomy h.dense hold).2
          refine .inl (htidy.find?_eq_some.mpr ⟨?_, hkey⟩)
          change e ∈ (D.enter size name').tree.rows
          rw [show (D.enter size name').tree.rows = _ from hrows]
          exact Rows.mem_insert.mpr (.inr ⟨he, hne⟩)
      | none =>
          -- the rows that are left are among the old ones and the new one
          have hrows := (TreeShape.put_dense RowFormat.entries hroomy h.dense (D.newEntry name')
            (D.next + 1)).2
          cases hfound : Rows.lookup Entry.key (searchKey name) (D.enter size name').tree.rows with
          | none => exact .inr ⟨hfound, TreeShape.next_of_missing RowFormat.entries h.ordered hold⟩
          | some e' =>
              obtain ⟨he', hkey'⟩ := htidy.find?_eq_some.mp hfound
              obtain rfl | ⟨he', -⟩ := Rows.mem_insert.mp (hrows e' he')
              · exact absurd (hkey.trans hkey'.symm) hne
              · exact .inl (hfound.trans ((h.find?_eq_some.mpr ⟨he', hkey'⟩).symm.trans hfind))
  | drop name' =>
      rw [act]
      obtain hdrop | ⟨e', hfind', hdrop⟩ := drop_cases d D name' <;> rw [hdrop]
      · exact .inr (.inl hfind)
      · by_cases hsame : Entry.key e = Entry.key (searchKey name')
        · obtain rfl : e' = e := Option.some.inj (hfind'.symm.trans (h.find?_eq_some.mpr ⟨he, hsame⟩))
          exact .inl (List.mem_singleton_self _)
        · refine .inr (.inl ((h.remove _).find?_eq_some.mpr ⟨?_, hkey⟩))
          rw [(TreeShape.remove_ordered h.ordered (searchKey name')).2.2]
          exact Rows.mem_erase.mpr ⟨he, hsame⟩
  | entries => exact .inr (.inl hfind)
  | names => exact .inr (.inl hfind)
  | size => exact .inr (.inl hfind)

/-- Once the last index is taken, a name that is not entered stays so. -/
lemma find?_act_none (h : D.Tidy) (call : DirectoryCall) {name : String}
    (hfind : D.find? name = none) (hlimit : CacheFile.indexLimit ≤ D.next) :
    (call.act d size D).2.find? name = none := by
  cases call with
  | obtain name' =>
      rw [act]
      obtain hsame | ⟨-, hno, -⟩ := obtain_cases d size D name'
      · exact hsame.symm ▸ hfind
      · exact absurd hlimit hno
  | drop name' =>
      rw [act]
      obtain hdrop | ⟨e', -, hdrop⟩ := drop_cases d D name' <;> rw [hdrop]
      · exact hfind
      · refine Rows.lookup_eq_none.mpr fun a ha => ?_
        rw [(TreeShape.remove_ordered h.ordered (searchKey name')).2.2] at ha
        exact Rows.lookup_eq_none.mp hfind a (Rows.mem_erase.mp ha).1
  | entries => exact hfind
  | names => exact hfind
  | size => exact hfind

/-! ### No page is lost -/

/-- A page in use stays so, or is a node that is gone or the page of a name that was dropped. -/
lemma uses_act (h : D.Tidy) (hroomy : RowFormat.entries.Roomy size) (call : DirectoryCall)
    (hok : (call.act d size D).1.isOk = true) (hi : D.Uses i) :
    (call.act d size D).2.Uses i ∨ i ∈ D.tree.indexes ∧ i ∉ (call.act d size D).2.tree.indexes ∨
      i ∈ call.dropped (call.act d size D).1 := by
  cases call with
  | obtain name =>
      left
      rw [act] at hok ⊢
      obtain hsame | ⟨hfind, -, hentered, hold⟩ := obtain_cases d size D name
      · exact hsame.symm ▸ hi
      rw [hentered]
      have hold := hold (by revert hok; cases (D.obtain d size name).1 <;> exact id)
      obtain hi | ⟨e, he, rfl⟩ := hi
      · exact .inl (List.mem_cons.mpr ((List.mem_cons.mp hi).imp_right fun hi =>
          mem_indexes_entered hold (.inl hi)))
      · -- the new name is none of those that are entered
        obtain ⟨old, hold⟩ := Option.ne_none_iff_exists'.mp hold
        have hrows := (TreeShape.put_rows RowFormat.entries hroomy h.dense hold).2
        refine .inr ⟨e, ?_, rfl⟩
        change e ∈ (D.enter size name).tree.rows
        rw [show (D.enter size name).tree.rows = _ from hrows, Rows.mem_insert]
        refine .inr ⟨he, fun hkey => ?_⟩
        rw [key_newEntry] at hkey
        rw [h.find?_eq_some.mpr ⟨he, hkey⟩] at hfind
        cases hfind
  | drop name =>
      obtain hdrop | ⟨e, hfind, hdrop⟩ := drop_cases d D name <;> rw [act, hdrop]
      · exact .inl hi
      obtain hi | ⟨e', he', rfl⟩ := hi
      · by_cases hin : i ∈ 0 :: (D.tree.remove Entry.key (searchKey name)).2.indexes
        · exact .inl (.inl hin)
        · rw [List.mem_cons, not_or] at hin
          exact .inr (.inl ⟨(List.mem_cons.mp hi).resolve_left hin.1, hin.2⟩)
      · by_cases hkey : Entry.key e' = Entry.key (searchKey name)
        · obtain rfl : e = e' := Option.some.inj (hfind.symm.trans (h.find?_eq_some.mpr ⟨he', hkey⟩))
          exact .inr (.inr (List.mem_singleton_self _))
        · refine .inl (.inr ⟨e', ?_, rfl⟩)
          rw [(TreeShape.remove_ordered h.ordered (searchKey name)).2.2]
          exact Rows.mem_erase.mpr ⟨he', hkey⟩
  | entries => exact .inl hi
  | names => exact .inl hi
  | size => exact .inl hi

/-- A page that a call takes is in use afterwards. -/
lemma uses_new (h : D.Tidy) (hroomy : RowFormat.entries.Roomy size) (call : DirectoryCall)
    (hok : (call.act d size D).1.isOk = true) (hle : D.next ≤ i)
    (hlt : i < (call.act d size D).2.next) : (call.act d size D).2.Uses i := by
  cases call with
  | obtain name =>
      rw [act] at hok hlt ⊢
      obtain hsame | ⟨-, hlimit, hentered, hold⟩ := obtain_cases d size D name
      · rw [hsame] at hlt
        exact absurd hlt (Nat.not_lt.mpr hle)
      rw [hentered] at hlt ⊢
      have hold := hold (by revert hok; cases (D.obtain d size name).1 <;> exact id)
      obtain rfl | hlt' := hle.eq_or_lt
      · obtain ⟨old, hold⟩ := Option.ne_none_iff_exists'.mp hold
        have hrows := (TreeShape.put_rows RowFormat.entries hroomy h.dense hold).2
        refine .inr ⟨D.newEntry name, ?_, index_next hlimit⟩
        change D.newEntry name ∈ (D.enter size name).tree.rows
        rw [show (D.enter size name).tree.rows = _ from hrows, Rows.mem_insert]
        exact .inl rfl
      · exact .inl (List.mem_cons_of_mem _ (mem_indexes_entered hold (.inr ⟨hlt', hlt⟩)))
  | drop name =>
      rw [act] at hlt
      obtain hdrop | ⟨e, -, hdrop⟩ := drop_cases d D name <;> rw [hdrop] at hlt <;>
        exact absurd hlt (Nat.not_lt.mpr hle)
  | entries => exact absurd hlt (Nat.not_lt.mpr hle)
  | names => exact absurd hlt (Nat.not_lt.mpr hle)
  | size => exact absurd hlt (Nat.not_lt.mpr hle)

end DirectoryCall

end PageCatalog
