import CodeHealth.Alignment
import CodeHealth.Refactor.Record
import CodeHealth.Tree.Syntax

/-!
# Changed lines

Two source trees are compared line by line. A line is told by the depth of its first token and the
texts of its tokens, so that layout does not count.
-/

namespace CodeHealth

/-- The containers whose contents stand one level deeper. -/
def scopeKinds : List String :=
  ["block", "statement_block", "class_body", "switch_body", "object", "array"]

/-- A token with its line and its depth. -/
structure PlacedToken where
  line : Nat
  depth : Nat
  text : String

/-- A line that holds tokens. -/
structure LineUnit where
  line : Nat
  depth : Nat
  tokens : List String
  deriving DecidableEq, Repr

/-- The token at a node, and the depth of its children. -/
def tokenStep (depth : Nat) (t : Tree SyntaxNode) : List PlacedToken × Option Nat :=
  if t.children.isEmpty then
    match t.label.text with
    | some text =>
      if t.label.isEmpty || text == "" then ([], none)
      else ([⟨t.label.startLine, depth, text⟩], none)
    | none => ([], none)
  else ([], some (if scopeKinds.contains t.kind then depth + 1 else depth))

/-- Every token of a tree in source order, also of its malformed parts. -/
def placedTokens (root : Tree SyntaxNode) : List PlacedToken :=
  root.collect tokenStep 0

/-- The unit of a line. -/
def unitOf (tokens : List PlacedToken) (line : Nat) : LineUnit :=
  let here := tokens.filter fun t => t.line == line
  ⟨line, (here.head?.map PlacedToken.depth).getD 0, here.map PlacedToken.text⟩

/-- The units of a tree in the order of their lines. -/
def lineUnits (root : Tree SyntaxNode) : List LineUnit :=
  let tokens := placedTokens root
  (((tokens.map PlacedToken.line).eraseDups).mergeSort).map (unitOf tokens)

/-- Whether two units have the same depth and tokens. -/
def LineUnit.same (a b : LineUnit) : Bool :=
  a.depth == b.depth && a.tokens == b.tokens

/-- The text of a line. -/
def lineText (lines : List String) (line : Nat) : String :=
  lines.getD (line - 1) ""

/-- The changes between two parts without a common unit: pairs are modified, and what is left over
is removed or added. -/
def changesOf (oldLines newLines : List String) (old new : List LineUnit) : List LineChange :=
  let paired := min old.length new.length
  (((old.take paired).zip (new.take paired)).map fun (o, n) =>
    { lineNumber := n.line
      type := .modify
      content := lineText newLines n.line
      oldContent := some (lineText oldLines o.line) }) ++
  ((old.drop paired).map fun o =>
    { lineNumber := o.line
      type := .remove
      content := lineText oldLines o.line
      oldContent := none }) ++
  ((new.drop paired).map fun n =>
    { lineNumber := n.line
      type := .add
      content := lineText newLines n.line
      oldContent := none })

/-- Two trees have more units than may be aligned. -/
structure DiffBudgetExceeded where
  units : Nat
  budget : Int

def DiffBudgetExceeded.message (e : DiffBudgetExceeded) : String :=
  s!"{e.units} diff units exceed {e.budget}"

/-- The changes of an alignment. -/
def stepChanges (oldLines newLines : List String) :
    Alignment.Step LineUnit LineUnit → List LineChange
  | .keep _ => []
  | .change old new => changesOf oldLines newLines old new

/-- The changed lines from one tree to another. -/
def computeChanges (before after : SourceTree) (budget : Int) :
    Except DiffBudgetExceeded (List LineChange) :=
  let old := lineUnits before.root
  let new := lineUnits after.root
  if budget < (old.length + new.length : Nat) then .error ⟨old.length + new.length, budget⟩
  else
    .ok ((Alignment.align LineUnit.same old new).flatMap
      (stepChanges before.lines after.lines))

end CodeHealth
