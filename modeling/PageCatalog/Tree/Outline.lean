import PageCatalog.Tree.Basic

/-!
The nodes of a tree as they are stored, damaged ones included.

* `Outline`: what stands below a page.
* `Tree.outline`: the outline below the root.
-/

namespace PageCatalog

/-- What stands below a page: rows and keys that cannot be read carry the reason. -/
inductive Outline (ρ : Type) where
  /-- The page cannot be had. -/
  | missing (reason : Failure)
  /-- The page is of another type, or too deep to be looked at. -/
  | closed (id : PageId) (tag : Nat)
  | leaf (id : PageId) (rows : List (Except Failure ρ))
  | inner (id : PageId) (keys : List (Except Failure ρ)) (children : List (Outline ρ))

/-- A page of an outline without what is below it. -/
inductive OutlineNode (ρ : Type) where
  | closed (tag : Nat)
  | leaf (rows : List (Except Failure ρ))
  | inner (keys : List (Except Failure ρ)) (children : List PageId)

namespace Tree

variable {ρ : Type} (t : Tree ρ)

/-- The deepest level of an outline. -/
def outlineDepth : Nat := 12

/-- The type of a page and, if `look` is set, what it holds as a node of that type. Its
number of keys is cut to what fits. -/
def outlineNode (look : Bool) (p : Page) : Except Failure (OutlineNode ρ) := do
  let tag ← Node.tag p
  let count ← Node.count p
  if look ∧ tag = t.rows.leaf.tag then
    let n := min count (t.rows.leaf.capacity p.size)
    return .leaf ((List.range n).map fun i => t.rows.loadSlot t.rows.leaf i p)
  else if look ∧ tag = t.rows.inner.tag then
    let n := min count (t.rows.inner.capacity p.size)
    return .inner ((List.range n).map fun i => t.rows.loadSlot t.rows.inner i p)
      (← (List.range (n + 1)).mapM fun i => Node.link t.rows.inner i p)
  else return .closed tag

variable {δ : Type} [Device δ]

/-- The outline below a page. Only `levels` levels are looked at. -/
def outlineFrom : (levels : Nat) → PageId → SessionM δ (Outline ρ)
  | levels, id => do
    let looked : Except Failure (OutlineNode ρ) ←
      tryCatch (.ok <$> Session.view t.cache id (t.outlineNode (levels ≠ 0)))
        (fun e => pure (.error e))
    match looked, levels with
    | .error e, _ => return .missing e
    | .ok (.closed tag), _ => return .closed id tag
    | .ok (.leaf rows), _ => return .leaf id rows
    | .ok (.inner _ _), 0 => return .missing .endless
    | .ok (.inner keys children), levels + 1 =>
      return .inner id keys (← children.mapM (outlineFrom levels))

/-- The outline of the tree. -/
def outline : SessionM δ (Outline ρ) := do
  t.outlineFrom (outlineDepth + 1) (← t.root)

end Tree

end PageCatalog
