import CodeHealth.Detector.Basic
import CodeHealth.Tally
import CodeHealth.Text.Substring

/-!
# Dead code

Statements that cannot be reached, and local variables that are written but never read.
-/

namespace CodeHealth.DeadCode

def blockKinds : List String :=
  ["block", "statement_block"]

/-- The statements after which a block does not go on. -/
def terminatorKinds : List String :=
  ["return_statement", "raise_statement", "throw_statement", "break_statement",
    "continue_statement"]

def identifierKinds : List String :=
  ["identifier", "shorthand_property_identifier"]

/-- The statements of a block. -/
def statements (block : Tree SyntaxNode) : List (Tree SyntaxNode) :=
  block.namedChildren.filter fun s => s.kind != "comment"

/-- A statement that ends a block early, with those after it. -/
structure Unreachable where
  terminator : Tree SyntaxNode
  first : Tree SyntaxNode
  others : List (Tree SyntaxNode)

/-- The first terminator of some statements that others follow. -/
def unreachable? : List (Tree SyntaxNode) → Option Unreachable
  | s :: next :: rest =>
    if terminatorKinds.contains s.kind then some ⟨s, next, rest⟩ else unreachable? (next :: rest)
  | _ => none

def unreachableFinding (u : Unreachable) : Finding :=
  let last := (u.others.getLast?.getD u.first).label
  { type := .deadCode
    severity := .high
    confidence := 90
    lineStart := u.first.label.startLine
    lineEnd := last.endLine
    description :=
      "Unreachable code after " ++ Text.replace u.terminator.kind "_statement" "" ++
        s!" on line {u.terminator.label.startLine}"
    metadata :=
      .complexity "unreachable statements" (Number.nearest (u.others.length + 1 : Nat)) 0 [] }

/-- One finding for each block that is left early. -/
def unreachableFindings (root : Tree SyntaxNode) : List Finding :=
  ((root.walk.filter fun t => blockKinds.contains t.kind).filterMap fun block =>
    unreachable? (statements block)).map unreachableFinding

/-- A tree whose labels tell their place. -/
abbrev Placed := Tree (Tree.Spot SyntaxNode)

/-- The node at a place. -/
def nodeOf (t : Placed) : SyntaxNode :=
  t.label.node

/-- The name that an assignment or a declaration binds. -/
def assignmentTarget? (t : Placed) : Option Placed :=
  let field :=
    if (nodeOf t).kind == "assignment" then some "left"
    else if (nodeOf t).kind == "variable_declarator" then some "name"
    else none
  (field.bind fun f => t.children.find? fun c => (nodeOf c).field == some f).filter fun target =>
    (nodeOf target).kind == "identifier" && target.label.tree.nonEmptyText?.isSome

/-- The well-formed nodes below a place. -/
def wellFormed (t : Placed) : List Placed :=
  t.reach (fun s => s.node.isError) fun _ => false

/-- The names that a statement takes from the scope outside. -/
def declaredOuter (t : Placed) : List (Option String) :=
  if (nodeOf t).kind == "global_statement" || (nodeOf t).kind == "nonlocal_statement" then
    ((wellFormed t).filter fun n => (nodeOf n).kind == "identifier").map fun n => (nodeOf n).text
  else []

/-- A local name with the node that first binds it. -/
structure Local where
  name : String
  target : SyntaxNode

/-- The first binding of each name. -/
def firstBindings (targets : List Placed) : List Local :=
  targets.foldl
    (fun locals t =>
      let name := (nodeOf t).text.getD ""
      if locals.any fun l => l.name == name then locals else locals ++ [⟨name, nodeOf t⟩])
    []

/-- The locals of a function that are written but never read. -/
def unusedLocals (f : FunctionDef) : List Local :=
  let function : Placed := f.node.spots []
  let own := (function.bodyOf Tree.Spot.node).ownSubtrees Tree.Spot.node
  let targets := own.filterMap assignmentTarget?
  let outer := own.flatMap declaredOuter
  let reads := (wellFormed function).filter fun n =>
    identifierKinds.contains (nodeOf n).kind &&
      !targets.any fun t => t.label.path == n.label.path
  (firstBindings targets).filter fun l =>
    !(Text.startsWith l.name "_" || outer.contains (some l.name) ||
      reads.any fun n => (nodeOf n).text == some l.name)

def unusedFinding (ast : SourceTree) (f : FunctionDef) (l : Local) : Finding :=
  { type := .deadCode
    severity := .low
    confidence := 70
    lineStart := l.target.startLine
    lineEnd := l.target.startLine
    description := s!"Local variable '{l.name}' in '{f.name}' is assigned but never used"
    metadata := .complexity "unused locals" 1 0 []
    functionName := some f.name
    className := f.className
    excerpt := some (ast.excerpt l.target.startLine l.target.startLine 1) }

def findings (ast : SourceTree) : List Finding :=
  unreachableFindings ast.root ++
    ast.functions.flatMap fun f => (unusedLocals f).map (unusedFinding ast f)

def detector : Detector :=
  { name := "dead_code"
    issueTypes := [.deadCode]
    languages := codeLanguages
    measure? := none
    detect := fun ast _ => .ok ((findings ast).map (Finding.issue · ast)) }

end CodeHealth.DeadCode
