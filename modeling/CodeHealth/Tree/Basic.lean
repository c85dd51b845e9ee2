/-!
# Ordered trees

Labelled trees with their listing in pre-order, the part that a node budget keeps, and the walks
over a tree: subtrees in pre-order, and values collected under an inherited state.
-/

namespace CodeHealth

inductive Tree (α : Type) where
  | node (label : α) (children : List (Tree α))

namespace Tree

variable {α β σ : Type}

def label : Tree α → α
  | .node a _ => a

def children : Tree α → List (Tree α)
  | .node _ cs => cs

instance [Inhabited α] : Inhabited (Tree α) := ⟨.node default []⟩

mutual

/-- The number of nodes. -/
def size : Tree α → Nat
  | .node _ cs => sizeAll cs + 1

def sizeAll : List (Tree α) → Nat
  | [] => 0
  | t :: ts => size t + sizeAll ts

end

mutual

/-- The labels in pre-order, each with its depth below `depth`. -/
def rows (depth : Nat) : Tree α → List (Nat × α)
  | .node a cs => (depth, a) :: rowsAll (depth + 1) cs

def rowsAll (depth : Nat) : List (Tree α) → List (Nat × α)
  | [] => []
  | t :: ts => rows depth t ++ rowsAll depth ts

end

/-- The trees of some rows in pre-order: a row's children are the later rows one level deeper, up to
the next row at its own level or above. -/
def ofRows (rows : List (Nat × α)) : List (Tree α) :=
  (rows.foldr
    (fun row later =>
      let below := later.takeWhile fun t => row.1 < t.1
      (row.1, .node row.2 (below.map Prod.snd)) :: later.drop below.length)
    []).map Prod.snd

mutual

/-- The first `count` nodes in pre-order, and never less than the root. -/
def take (count : Nat) : Tree α → Tree α
  | .node a cs => .node a (takeAll (count - 1) cs)

/-- The first `count` nodes of some trees in pre-order. -/
def takeAll (count : Nat) : List (Tree α) → List (Tree α)
  | [] => []
  | t :: ts => if count == 0 then [] else take count t :: takeAll (count - size t) ts

end

mutual

/-- The subtrees in pre-order. Those whose label satisfies `skip` are left out whole, and those
whose label satisfies `stop` are listed but not entered. -/
def reach (skip stop : α → Bool) : Tree α → List (Tree α)
  | .node a cs =>
    if skip a then []
    else .node a cs :: if stop a then [] else reachAll skip stop cs

def reachAll (skip stop : α → Bool) : List (Tree α) → List (Tree α)
  | [] => []
  | t :: ts => reach skip stop t ++ reachAll skip stop ts

end

mutual

/-- Values collected in pre-order. At each subtree `step` turns the inherited state into the values
found there and the state for the children, or no state where they are not entered. -/
def collect (step : σ → Tree α → List β × Option σ) (s : σ) : Tree α → List β
  | .node a cs =>
    let found := step s (.node a cs)
    found.1 ++
      match found.2 with
      | some s' => collectAll step s' cs
      | none => []

def collectAll (step : σ → Tree α → List β × Option σ) (s : σ) : List (Tree α) → List β
  | [] => []
  | t :: ts => collect step s t ++ collectAll step s ts

end

/-- A subtree with its place: the child indices on the way from the root. -/
structure Spot (α : Type) where
  path : List Nat
  tree : Tree α

mutual

/-- The same tree with each label replaced by the spot of its subtree. -/
def spots (path : List Nat) : Tree α → Tree (Spot α)
  | .node a cs => .node ⟨path, .node a cs⟩ (spotsAll path 0 cs)

def spotsAll (path : List Nat) (index : Nat) : List (Tree α) → List (Tree (Spot α))
  | [] => []
  | t :: ts => spots (path ++ [index]) t :: spotsAll path (index + 1) ts

end

end Tree

end CodeHealth
