import PageCatalog.Tree.Basic

/-!
Looking up a row.

* `Tree.find?`: the stored row equal to a given one.
-/

namespace PageCatalog.Tree

variable {ρ : Type} (t : Tree ρ) {δ : Type} [Device δ]

/-- Follows the links for a row from a page, at most `n` pages far. -/
def findFrom (row : ρ) : (n : Nat) → PageId → SessionM δ (Option ρ)
  | 0, _ => throw .endless
  | n + 1, id => do
    match ← Session.view t.cache id (t.arrive row id) with
    | .leaf (.found i) => some <$> Session.view t.cache id (t.rows.loadSlot t.rows.leaf i)
    | .leaf (.gap _) => return none
    | .inner _ child => findFrom row n child

/-- The stored row equal to a given one. -/
def find? (row : ρ) : SessionM δ (Option ρ) := do
  t.findFrom row (← t.reach) (← t.root)

end PageCatalog.Tree
