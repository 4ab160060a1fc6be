import PageCatalog.Tree.Basic

/-!
Visiting all rows of a tree in order.

A visitor takes rows one by one with a value that it carries on, and may refuse to
go on. Where it ends, refused by the visitor or by a page, the value stays.

* `Tree.walk`: all rows to a visitor.
* `Tree.rows`, `Tree.size`: the rows and their number.
* `Tree.scan`: the first rows up to a limit.
-/

namespace PageCatalog

/-- The content of a node. -/
inductive NodeContent (ρ : Type) where
  | leaf (rows : List ρ)
  | inner (children : List PageId)

/-- Computations that carry a value on and keep it when they fail. -/
abbrev WalkM (δ β : Type) := ExceptT Failure (StateM (β × Session δ))

namespace Tree

variable {ρ : Type} (t : Tree ρ)

/-- The content of the page reached as `id`. -/
def content (id : PageId) (p : Page) : Except Failure (NodeContent ρ) := do
  let count ← Node.count p
  match ← t.kind id p with
  | .leaf => .leaf <$> (List.range count).mapM fun i => t.rows.loadSlot t.rows.leaf i p
  | .inner => .inner <$> (List.range (count + 1)).mapM fun i => Node.link t.rows.inner i p

variable {δ β : Type}

/-- A computation on the session during a walk. -/
def during {α : Type} (m : SessionM δ α) : WalkM δ β α := fun (b, s) =>
  let (r, s) := m s
  (r, (b, s))

/-- Shows a row to a visitor. -/
def visitRow (visit : β → ρ → Except Error β) (row : ρ) : WalkM δ β Unit := fun (b, s) =>
  match visit b row with
  | .ok b => (.ok (), (b, s))
  | .error e => (.error (.error e), (b, s))

variable [Device δ]

/-- Shows the rows below a page to a visitor, at most `n` pages deep. -/
def walkFrom (visit : β → ρ → Except Error β) : (n : Nat) → PageId → WalkM δ β Unit
  | 0, _ => throw .endless
  | n + 1, id => do
    match ← during (Session.view t.cache id (t.content id)) with
    | .leaf rows => rows.forM (visitRow visit)
    | .inner children => children.forM (walkFrom visit n)

/-- Shows the rows of the tree to a visitor that starts with `b`, at most `depth`
pages deep. The result is the visitor's value and how the walk ended. -/
def walk (visit : β → ρ → Except Error β) (b : β) (depth : Nat) :
    SessionM δ (β × Except Failure Unit) := fun s =>
  match (do t.walkFrom visit depth (← during t.root) : WalkM δ β Unit) (b, s) with
  | (r, (b, s)) => (.ok (b, r), s)

/-- The end of a walk that a visitor never refuses: a path longer than the cache has
pages comes back to one of them. -/
def fold (f : β → ρ → β) (b : β) : SessionM δ β := do
  let (b, r) ← t.walk (fun b row => .ok (f b row)) b (← t.reach)
  Session.settle (r.map fun _ => b)

/-- All rows in order. -/
def toList : SessionM δ (List ρ) :=
  return (← t.fold (fun rows row => row :: rows) []).reverse

/-- The number of rows. -/
def size : SessionM δ Nat := t.fold (fun n _ => n + 1) 0

/-- A visitor of at most `limit` rows; the latest comes first. -/
def collect (limit : Nat) (rows : List ρ) (row : ρ) : Except Error (List ρ) :=
  if rows.length < limit then .ok (row :: rows)
  else .error (.invalidConfig (.stated "stopped"))

/-- The rows in order up to a limit, and how the walk ended. On links that lead in a
circle each round either shows the visitor a row or will never do so, hence the
depth. -/
def scan (limit : Nat) : SessionM δ (List ρ × Except Failure Unit) := do
  let (rows, r) ← t.walk (collect limit) [] ((← t.reach) * (limit + 2))
  return (rows.reverse, r)

end Tree

end PageCatalog
