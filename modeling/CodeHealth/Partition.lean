/-!
# Partitions

The numbers below a size in disjoint sets that are joined one pair at a time. Each set is a tree of
parent links; the root with the higher rank takes in the other, and a search shortens the links on
its way.
-/

namespace CodeHealth

/-- Disjoint sets of numbers: the parent of each number, the rank of each root, and at each root the
members of its set in the order in which they joined it. -/
structure Partition where
  parent : List Nat
  rank : List Nat
  membersAt : List (List Nat)
  deriving DecidableEq, Repr

namespace Partition

/-- Every number below `size` in a set of its own. -/
def singletons (size : Nat) : Partition :=
  { parent := List.range size
    rank := List.replicate size 0
    membersAt := (List.range size).map fun i => [i] }

def size (p : Partition) : Nat :=
  p.parent.length

def parentOf (p : Partition) (i : Nat) : Nat :=
  p.parent.getD i i

/-- The end of at most `fuel` parent links. -/
def rootWithin (p : Partition) : Nat → Nat → Nat
  | 0, i => i
  | fuel + 1, i => if p.parentOf i == i then i else p.rootWithin fuel (p.parentOf i)

/-- The root of the set of a number. -/
def root (p : Partition) (i : Nat) : Nat :=
  p.rootWithin p.size i

/-- Links every number on the way from `i` to a root directly to it. -/
def compressWithin (root : Nat) : Nat → Nat → List Nat → List Nat
  | 0, _, parent => parent
  | fuel + 1, i, parent =>
    let next := parent.getD i i
    if next == root then parent else compressWithin root fuel next (parent.set i root)

/-- Shortens the links on the way from a number to its root. -/
def compress (p : Partition) (i : Nat) : Partition :=
  { p with parent := compressWithin (p.root i) p.size i p.parent }

/-- The root of a number, and the partition with shortened links. -/
def find (p : Partition) (i : Nat) : Nat × Partition :=
  (p.root i, p.compress i)

/-- The members of a number's set, and the partition with shortened links. -/
def members (p : Partition) (i : Nat) : List Nat × Partition :=
  (p.membersAt.getD (p.root i) [], p.compress i)

/-- Joins the set of one root to that of another. -/
def attach (p : Partition) (upper lower : Nat) : Partition :=
  let upperRank := p.rank.getD upper 0
  { parent := p.parent.set lower upper
    rank :=
      if upperRank == p.rank.getD lower 0 then p.rank.set upper (upperRank + 1) else p.rank
    membersAt :=
      (p.membersAt.set upper (p.membersAt.getD upper [] ++ p.membersAt.getD lower [])).set
        lower [] }

/-- Joins the sets of two numbers. -/
def union (p : Partition) (a b : Nat) : Partition :=
  let (rootA, p) := p.find a
  let (rootB, p) := p.find b
  if rootA == rootB then p
  else if p.rank.getD rootA 0 < p.rank.getD rootB 0 then p.attach rootB rootA
  else p.attach rootA rootB

/-- Adds a number to the group of its root. -/
def addToGroup (groups : List (Nat × List Nat)) (root i : Nat) : List (Nat × List Nat) :=
  if groups.any fun g => g.1 == root then
    groups.map fun g => if g.1 == root then (g.1, g.2 ++ [i]) else g
  else groups ++ [(root, [i])]

/-- The sets by their least members, each in increasing order, and the partition with all links
shortened. -/
def groups (p : Partition) : List (List Nat) × Partition :=
  let (found, p) := (List.range p.size).foldl
    (fun (found, p) i =>
      let (root, p) := p.find i
      (addToGroup found root i, p))
    (([] : List (Nat × List Nat)), p)
  (found.map Prod.snd, p)

end Partition

end CodeHealth
