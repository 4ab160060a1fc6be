import Mathlib.Tactic
import PageCatalog.Tree.Basic

/-!
Sorted maps as lists of rows.

Rows with ascending keys are a map: a row is found by its key, replaces a row of its
key, and is taken out by its key. A tree is such a map cut into pieces, and what is
done to the map happens in the one piece around the key.

* `Rows.Ascending`, `Rows.lookup`, `Rows.insert`, `Rows.erase`: the map.
* `Rows.Around`: rows before and behind a key; `lookup_around`, `insert_around`,
  `erase_around`: the map is changed between them only.
* `Rows.Placed`, `Rows.place`: the place of a key among the rows.
* `Rows.visit`: rows shown to a visitor that may refuse to go on.
-/

namespace PageCatalog

/-- The same place when one more row stands before it. -/
def Position.next : Position → Position
  | .found i => .found (i + 1)
  | .gap i => .gap (i + 1)

/-! ### Lists cut in two -/

section Middle

variable {α : Type} (before after : List α) (a b : α)

/-- An element comes between two lists. -/
lemma insertIdx_middle : (before ++ after).insertIdx before.length a = before ++ a :: after := by
  induction before with
  | nil => rfl
  | cons b bs ih => simpa using ih

/-- The element between two lists is taken out. -/
lemma eraseIdx_middle : (before ++ a :: after).eraseIdx before.length = before ++ after := by
  rw [List.eraseIdx_append_of_length_le le_rfl, Nat.sub_self, List.eraseIdx_cons_zero]

/-- The element between two lists is replaced. -/
lemma set_middle : (before ++ a :: after).set before.length b = before ++ b :: after := by
  simp

variable (l : List α) {i m : ℕ}

/-- An element comes into the first part of a list. -/
lemma insertIdx_take (h : i ≤ m) : (l.take m).insertIdx i a = (l.insertIdx i a).take (m + 1) := by
  refine List.ext_getElem? fun j => ?_
  simp only [List.getElem?_insertIdx, List.getElem?_take, List.length_take]
  grind

/-- An element that comes into the first part leaves the second one. -/
lemma drop_insertIdx_of_le (h : i ≤ m) : (l.insertIdx i a).drop (m + 1) = l.drop m := by
  refine List.ext_getElem? fun j => ?_
  simp only [List.getElem?_insertIdx, List.getElem?_drop]
  grind

/-- An element comes into the second part of a list. -/
lemma insertIdx_drop (h : m ≤ i) (hi : i ≤ l.length) :
    (l.drop m).insertIdx (i - m) a = (l.insertIdx i a).drop m := by
  refine List.ext_getElem? fun j => ?_
  simp only [List.getElem?_insertIdx, List.getElem?_drop, List.length_drop]
  grind

end Middle

namespace Rows

variable {ρ κ : Type} [LinearOrder κ] (key : ρ → κ) {row : ρ} {rows before mid after : List ρ}

/-! ### The map -/

/-- Every row is smaller than the rows behind it. -/
def Ascending (rows : List ρ) : Prop := rows.Pairwise fun a b => key a < key b

/-- The row of the same key. -/
def lookup (row : ρ) (rows : List ρ) : Option ρ := rows.find? fun r => key r = key row

/-- The rows with one more, in place of the row of the same key. -/
def insert (row : ρ) (rows : List ρ) : List ρ :=
  rows.filter (fun r => key r < key row) ++ row :: rows.filter fun r => key row < key r

/-- The rows without the one of the same key. -/
def erase (row : ρ) (rows : List ρ) : List ρ := rows.filter fun r => key r ≠ key row

variable {key}

/-- Two lists one behind the other ascend if both do and the first ends below the second. -/
lemma ascending_append :
    Ascending key (before ++ after) ↔
      Ascending key before ∧ Ascending key after ∧ ∀ a ∈ before, ∀ b ∈ after, key a < key b :=
  List.pairwise_append

/-- A part of ascending rows ascends. -/
lemma Ascending.sublist (h : Ascending key rows) (hsub : before.Sublist rows) :
    Ascending key before :=
  List.Pairwise.sublist hsub h

/-- The rows after one was put in: the new one, and the others of other keys. -/
lemma mem_insert {r : ρ} :
    r ∈ insert key row rows ↔ r = row ∨ r ∈ rows ∧ key r ≠ key row := by
  simp only [insert, List.mem_append, List.mem_filter, List.mem_cons, decide_eq_true_eq,
    lt_or_lt_iff_ne.symm]
  tauto

/-- The rows after one was taken out: those of other keys. -/
lemma mem_erase {r : ρ} : r ∈ erase key row rows ↔ r ∈ rows ∧ key r ≠ key row := by
  simp [erase]

/-- Ascending rows ascend with one more. -/
lemma insert_ascending (h : Ascending key rows) (row : ρ) :
    Ascending key (insert key row rows) := by
  -- The smaller rows, the row itself and the greater ones, in this order.
  refine ascending_append.mpr ⟨h.sublist List.filter_sublist, ?_, ?_⟩
  · refine List.pairwise_cons.mpr ⟨?_, h.sublist List.filter_sublist⟩
    intro r hr
    simpa using (List.mem_filter.mp hr).2
  · intro a ha b hb
    have ha' : key a < key row := by simpa using (List.mem_filter.mp ha).2
    rcases List.mem_cons.mp hb with rfl | hb
    · exact ha'
    · exact ha'.trans (by simpa using (List.mem_filter.mp hb).2)

/-- Ascending rows ascend with one less. -/
lemma erase_ascending (h : Ascending key rows) (row : ρ) : Ascending key (erase key row rows) :=
  h.sublist List.filter_sublist

/-- Two rows of one key are one. -/
lemma Ascending.eq_of_key_eq (h : Ascending key rows) {a b : ρ} (ha : a ∈ rows) (hb : b ∈ rows)
    (hkey : key a = key b) : a = b := by
  have hnodup : (rows.map key).Nodup := List.pairwise_map.mpr (h.imp fun hlt => ne_of_lt hlt)
  exact List.inj_on_of_nodup_map hnodup ha hb hkey

/-- The row of a key is the one that is there. -/
lemma lookup_eq_some (h : Ascending key rows) {r : ρ} :
    lookup key row rows = some r ↔ r ∈ rows ∧ key r = key row := by
  constructor
  · intro hfind
    exact ⟨List.mem_of_find?_eq_some hfind, by simpa using List.find?_some hfind⟩
  · rintro ⟨hr, hkey⟩
    cases hfind : lookup key row rows with
    | none => exact absurd hkey (by simpa using List.find?_eq_none.mp hfind r hr)
    | some q =>
        have hq := List.mem_of_find?_eq_some hfind
        have hqkey : key q = key row := by simpa using List.find?_some hfind
        rw [h.eq_of_key_eq hq hr (hqkey.trans hkey.symm)]

/-- No row is found where none of its key is there. -/
lemma lookup_eq_none : lookup key row rows = none ↔ ∀ r ∈ rows, key r ≠ key row := by
  simp [lookup]

/-! ### The piece around a key -/

variable (key) in
/-- All rows of the first list are smaller, all of the second one greater than a row. -/
structure Around (row : ρ) (before after : List ρ) : Prop where
  before : ∀ r ∈ before, key r < key row
  after : ∀ r ∈ after, key row < key r

/-- A row is looked up in the piece around its key. -/
lemma Around.lookup (h : Around key row before after) :
    lookup key row (before ++ mid ++ after) = lookup key row mid := by
  have hbefore : Rows.lookup key row before = none :=
    lookup_eq_none.mpr fun r hr => ne_of_lt (h.before r hr)
  have hafter : Rows.lookup key row after = none :=
    lookup_eq_none.mpr fun r hr => (ne_of_lt (h.after r hr)).symm
  rw [Rows.lookup] at hbefore hafter
  rw [Rows.lookup, List.find?_append, List.find?_append, hbefore, hafter, Option.none_or,
    Option.or_none, Rows.lookup]

/-- A row is put into the piece around its key. -/
lemma Around.insert (h : Around key row before after) :
    insert key row (before ++ mid ++ after) = before ++ insert key row mid ++ after := by
  have hbefore : before.filter (fun r => key r < key row) = before :=
    List.filter_eq_self.mpr fun r hr => by simpa using h.before r hr
  have hbefore' : before.filter (fun r => key row < key r) = [] :=
    List.filter_eq_nil_iff.mpr fun r hr => by simpa using (h.before r hr).le
  have hafter : after.filter (fun r => key row < key r) = after :=
    List.filter_eq_self.mpr fun r hr => by simpa using h.after r hr
  have hafter' : after.filter (fun r => key r < key row) = [] :=
    List.filter_eq_nil_iff.mpr fun r hr => by simpa using (h.after r hr).le
  simp only [Rows.insert, List.filter_append, hbefore, hbefore', hafter, hafter', List.nil_append,
    List.append_nil, List.append_assoc, List.cons_append]

/-- A row is taken out of the piece around its key. -/
lemma Around.erase (h : Around key row before after) :
    erase key row (before ++ mid ++ after) = before ++ erase key row mid ++ after := by
  have hbefore : before.filter (fun r => key r ≠ key row) = before :=
    List.filter_eq_self.mpr fun r hr => by simpa using ne_of_lt (h.before r hr)
  have hafter : after.filter (fun r => key r ≠ key row) = after :=
    List.filter_eq_self.mpr fun r hr => by simpa using (ne_of_lt (h.after r hr)).symm
  simp only [Rows.erase, List.filter_append, hbefore, hafter]

/-! ### The place of a key -/

variable (key) in
/-- The place of a row is behind the smaller ones and, if there is none of its key,
before the greater ones. -/
inductive Placed (row : ρ) : List ρ → Position → Prop
  | found {before after : List ρ} (r : ρ) (hkey : key r = key row)
      (h : Around key row before after) :
      Placed row (before ++ r :: after) (.found before.length)
  | gap {before after : List ρ} (h : Around key row before after) :
      Placed row (before ++ after) (.gap before.length)

/-- A row goes between the rows before a place and those from there on. -/
lemma Placed.of_drop {i : ℕ} (hi : i ≤ rows.length)
    (h : Around key row (rows.take i) (rows.drop i)) : Placed key row rows (.gap i) := by
  have hplaced := Placed.gap h
  rwa [List.take_append_drop, List.length_take_of_le hi] at hplaced

/-- A row is placed where one of its key stands. -/
lemma Ascending.placed_getElem (hasc : Ascending key rows) {i : ℕ} (hi : i < rows.length)
    (hkey : key rows[i] = key row) : Placed key row rows (.found i) := by
  have hsplit : rows.take i ++ rows[i] :: rows.drop (i + 1) = rows := by
    rw [← List.drop_eq_getElem_cons, List.take_append_drop]
  obtain ⟨-, hafter, hbefore⟩ := ascending_append.mp (hsplit ▸ hasc)
  have hplaced : Placed key row (rows.take i ++ rows[i] :: rows.drop (i + 1))
      (.found (rows.take i).length) := by
    refine .found rows[i] hkey ⟨fun r hr => ?_, fun r hr => ?_⟩
    · exact (hbefore r hr _ List.mem_cons_self).trans_eq hkey
    · exact hkey.symm.trans_lt ((List.pairwise_cons.mp hafter).1 r hr)
  rwa [hsplit, List.length_take_of_le hi.le] at hplaced

variable (key) in
/-- The place of a row among ascending rows. -/
def place (row : ρ) : List ρ → Position
  | [] => .gap 0
  | r :: rest =>
    if key row < key r then .gap 0
    else if key r = key row then .found 0
    else (place row rest).next

/-- A gap is between rows, or behind the last one. -/
lemma place_gap_le {i : ℕ} (hat : place key row rows = .gap i) : i ≤ rows.length := by
  induction rows generalizing i with
  | nil =>
      cases hat
      exact le_rfl
  | cons r rest ih =>
      rw [place] at hat
      split at hat
      · cases hat
        exact Nat.zero_le _
      · split at hat
        · cases hat
        · cases hrest : place key row rest <;> rw [hrest] at hat <;> cases hat
          exact Nat.succ_le_succ (ih hrest)

/-- There is but one place for a row. -/
lemma Placed.place_eq {at_ : Position} (h : Placed key row rows at_) :
    place key row rows = at_ := by
  -- By induction on the rows before the place, each of which the search for it passes.
  cases h with
  | @found before after r hkey h =>
      obtain ⟨hbefore, hafter⟩ := h
      clear hafter
      induction before with
      | nil => simp [place, hkey]
      | cons b bs ih =>
          have hb := hbefore b List.mem_cons_self
          have := ih fun r hr => hbefore r (List.mem_cons_of_mem _ hr)
          simp only [List.cons_append, place, if_neg hb.not_gt, if_neg (ne_of_lt hb), this]
          rfl
  | @gap before after h =>
      obtain ⟨hbefore, hafter⟩ := h
      induction before with
      | nil =>
          cases after with
          | nil => rfl
          | cons a as => simp [place, hafter a List.mem_cons_self]
      | cons b bs ih =>
          have hb := hbefore b List.mem_cons_self
          have := ih fun r hr => hbefore r (List.mem_cons_of_mem _ hr)
          simp only [List.cons_append, place, if_neg hb.not_gt, if_neg (ne_of_lt hb), this]
          rfl

/-- Ascending rows have a place for every row. -/
lemma Ascending.placed (h : Ascending key rows) (row : ρ) :
    Placed key row rows (place key row rows) := by
  -- It is enough that there is some place, since it is then the one that is computed.
  suffices hplaced : ∃ at_, Placed key row rows at_ by
    obtain ⟨at_, hat⟩ := hplaced
    rwa [hat.place_eq]
  induction rows with
  | nil =>
      have hplaced : Placed key row ([] ++ []) (.gap 0) := .gap ⟨by simp, by simp⟩
      exact ⟨_, hplaced⟩
  | cons r rest ih =>
      obtain ⟨hr, hrest⟩ := List.pairwise_cons.mp h
      rcases lt_trichotomy (key r) (key row) with hlt | heq | hgt
      · obtain ⟨_, hat⟩ := ih hrest
        cases hat with
        | @found before after q hkey hq =>
            have hplaced : Placed key row ((r :: before) ++ q :: after) (.found (r :: before).length) :=
              .found q hkey ⟨List.forall_mem_cons.mpr ⟨hlt, hq.before⟩, hq.after⟩
            exact ⟨_, hplaced⟩
        | @gap before after hq =>
            have hplaced : Placed key row ((r :: before) ++ after) (.gap (r :: before).length) :=
              .gap ⟨List.forall_mem_cons.mpr ⟨hlt, hq.before⟩, hq.after⟩
            exact ⟨_, hplaced⟩
      · have hplaced : Placed key row ([] ++ r :: rest) (.found 0) :=
          .found r heq ⟨by simp, fun q hq => heq ▸ hr q hq⟩
        exact ⟨_, hplaced⟩
      · have hplaced : Placed key row ([] ++ r :: rest) (.gap 0) :=
          .gap ⟨by simp, List.forall_mem_cons.mpr ⟨hgt, fun q hq => hgt.trans (hr q hq)⟩⟩
        exact ⟨_, hplaced⟩

/-- What the map does where a row of the same key stands. -/
lemma Ascending.of_found {i : ℕ} (h : Ascending key rows) (hat : place key row rows = .found i) :
    ∃ r, rows[i]? = some r ∧ lookup key row rows = some r ∧
      insert key row rows = rows.set i row ∧ erase key row rows = rows.eraseIdx i := by
  have hplaced := h.placed row
  rw [hat] at hplaced
  cases hplaced with
  | @found before after r hkey haround =>
      have hsplit : before ++ r :: after = before ++ [r] ++ after := by simp
      refine ⟨r, by simp, ?_, ?_, ?_⟩
      · rw [hsplit, haround.lookup]
        simp [lookup, hkey]
      · rw [hsplit, haround.insert]
        simp [insert, hkey]
      · rw [hsplit, haround.erase, ← hsplit, eraseIdx_middle]
        simp [erase, hkey]

/-- What the map does where no row of the same key stands. -/
lemma Ascending.of_gap {i : ℕ} (h : Ascending key rows) (hat : place key row rows = .gap i) :
    i ≤ rows.length ∧ lookup key row rows = none ∧
      insert key row rows = rows.insertIdx i row ∧ erase key row rows = rows := by
  have hplaced := h.placed row
  rw [hat] at hplaced
  cases hplaced with
  | @gap before after haround =>
      have hsplit : before ++ after = before ++ [] ++ after := by simp
      refine ⟨by simp, ?_, ?_, ?_⟩
      · rw [hsplit, haround.lookup]
        rfl
      · rw [hsplit, haround.insert, ← hsplit, insertIdx_middle]
        simp [insert]
      · rw [hsplit, haround.erase]
        simp [erase]

/-! ### Visitors -/

/-- Shows rows to a visitor one by one. Where it refuses to go on, the visit ends with
its reason. -/
def visit {β : Type} (f : β → ρ → Except Error β) : β → List ρ → β × Except Error Unit
  | b, [] => (b, .ok ())
  | b, r :: rest =>
    match f b r with
    | .ok b' => visit f b' rest
    | .error e => (b, .error e)

/-- A visit of two lists goes on with the second one if the first was not refused. -/
lemma visit_append {β : Type} (f : β → ρ → Except Error β) (b : β) (before after : List ρ) :
    visit f b (before ++ after) =
      match visit f b before with
      | (b', .ok ()) => visit f b' after
      | refused => refused := by
  induction before generalizing b with
  | nil => rfl
  | cons r rest ih =>
      rw [List.cons_append, visit, visit]
      cases f b r with
      | ok b' => exact ih b'
      | error e => rfl

end Rows

end PageCatalog
