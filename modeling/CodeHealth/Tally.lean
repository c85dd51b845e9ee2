/-!
# Tallies

Counted collections in the order of first appearance. Only positive counts are counted in a union or
an intersection.
-/

namespace CodeHealth

/-- Each element with its count; no element comes twice. -/
abbrev Tally (α : Type) := List (α × Int)

namespace Tally

variable {α : Type} [BEq α]

/-- How often an element is counted. -/
def count (t : Tally α) (a : α) : Int :=
  match t.find? fun e => e.1 == a with
  | some e => e.2
  | none => 0

/-- Counts one element more. -/
def add (t : Tally α) (a : α) : Tally α :=
  if t.any fun e => e.1 == a then t.map fun e => if e.1 == a then (e.1, e.2 + 1) else e
  else t ++ [(a, 1)]

/-- Counts the elements of a list. -/
def ofList (elements : List α) : Tally α :=
  elements.foldl add []

/-- The sum of all counts. -/
def total (t : Tally α) : Int :=
  t.foldr (fun e sum => e.2 + sum) 0

/-- The larger of both counts of each element. -/
def union (s t : Tally α) : Tally α :=
  ((s.map fun e => (e.1, max e.2 (t.count e.1))) ++
    t.filter fun e => !s.any fun d => d.1 == e.1).filter fun e => 0 < e.2

/-- The smaller of both counts of each element. -/
def inter (s t : Tally α) : Tally α :=
  (s.map fun e => (e.1, min e.2 (t.count e.1))).filter fun e => 0 < e.2

/-- What the first tally counts beyond the second. -/
def diff (s t : Tally α) : Tally α :=
  (s.map fun e => (e.1, e.2 - t.count e.1)).filter fun e => 0 < e.2

end Tally

end CodeHealth
