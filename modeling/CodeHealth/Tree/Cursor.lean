import CodeHealth.Tree.Basic

/-!
# Walks with a cursor

A cursor moves through a tree in pre-order. A walk copies each node that the cursor comes to below
the node that is open above it, and breaks off where a budget is spent.
-/

namespace CodeHealth.Tree

variable {α : Type}

/-- A place in a tree: the subtree there with the siblings after it, and the same for each node
above it, the nearest first. -/
structure Cursor (α : Type) where
  tree : Tree α
  later : List (Tree α)
  above : List (Tree α × List (Tree α))

def Cursor.ofTree (t : Tree α) : Cursor α :=
  ⟨t, [], []⟩

/-- A copied node that can still get children: those that it has, the latest first. -/
structure OpenNode (α : Type) where
  label : α
  copied : List (Tree α)

namespace OpenNode

def close (o : OpenNode α) : Tree α :=
  .node o.label o.copied.reverse

def add (o : OpenNode α) (t : Tree α) : OpenNode α :=
  { o with copied := t :: o.copied }

end OpenNode

/-- A tree that is being copied: the node copied last and the nodes open above it, the nearest
first. -/
structure Draft (α : Type) where
  last : OpenNode α
  parents : List (OpenNode α)

namespace Draft

/-- Copies a node below the last one. -/
def below (a : α) : Draft α → Draft α
  | ⟨last, parents⟩ => ⟨⟨a, []⟩, last :: parents⟩

/-- Closes the last node. -/
def up : Draft α → Draft α
  | ⟨last, []⟩ => ⟨last, []⟩
  | ⟨last, p :: ps⟩ => ⟨p.add last.close, ps⟩

/-- Closes all nodes. -/
def close (draft : Draft α) : Tree α :=
  (draft.parents.foldl (fun o p => p.add o.close) draft.last).close

end Draft

/-- Where a walk is: the cursor and what has been copied. -/
structure Walk (α : Type) where
  cursor : Cursor α
  draft : Draft α

namespace Walk

def start (t : Tree α) : Walk α :=
  ⟨.ofTree t, ⟨⟨t.label, []⟩, []⟩⟩

/-- Moves on to the next sibling, or climbs to the nearest node above that has one. -/
def climb? (draft : Draft α) :
    List (Tree α) → List (Tree α × List (Tree α)) → Option (Walk α)
  | t :: ts, above => some ⟨⟨t, ts, above⟩, draft.up.below t.label⟩
  | [], [] => none
  | [], (_, later) :: above => climb? draft.up later above

/-- Moves on to the next node in pre-order and copies it. -/
def next? : Walk α → Option (Walk α)
  | ⟨⟨.node a (c :: cs), later, above⟩, draft⟩ =>
    some ⟨⟨c, cs, (.node a (c :: cs), later) :: above⟩, draft.below c.label⟩
  | ⟨⟨.node _ [], later, above⟩, draft⟩ => climb? draft later above

end Walk

/-- What a walk has copied, and whether the budget broke it off. -/
structure Copy (α : Type) where
  tree : Tree α
  count : Nat
  cutOff : Bool

/-- Goes on with a walk that has copied `count` nodes and may copy `left` more. -/
def Walk.run : Nat → Nat → Walk α → Copy α
  | 0, count, w => ⟨w.draft.close, count, true⟩
  | left + 1, count, w =>
    match w.next? with
    | some next => next.run left (count + 1)
    | none => ⟨w.draft.close, count, false⟩

/-- Copies a tree and stops at the node with which the budget is spent. The root is always
copied. -/
def copyWithin (budget : Int) (t : Tree α) : Copy α :=
  (Walk.start t).run (budget - 1).toNat 1

end CodeHealth.Tree
