import CodeHealth.Code.Function

/-!
# Metrics

Counts over a syntax tree: lines of code, branches, nesting and cognitive complexity. The measures
of a function stop at the functions inside it.
-/

namespace CodeHealth

/-- The kinds that add one way through the code. -/
def decisionKinds : List String :=
  ["if_statement", "elif_clause", "for_statement", "while_statement", "except_clause",
    "conditional_expression", "case_clause", "for_in_clause", "if_clause", "boolean_operator",
    "for_in_statement", "do_statement", "switch_case", "catch_clause", "ternary_expression"]

def logicalOperators : List String :=
  ["&&", "||", "??", "and", "or"]

/-- The control structures that open a level of nesting. -/
def nestingKinds : List String :=
  ["if_statement", "for_statement", "for_in_statement", "while_statement", "do_statement",
    "try_statement", "with_statement", "match_statement", "switch_statement"]

/-- The structures that cost one and the level of nesting they stand at. -/
def cognitiveNestedKinds : List String :=
  ["if_statement", "for_statement", "for_in_statement", "while_statement", "do_statement",
    "switch_statement", "match_statement", "except_clause", "catch_clause",
    "conditional_expression", "ternary_expression"]

/-- The functions that are read as part of the code around them, one level deeper. -/
def nestedScopeKinds : List String :=
  ["lambda", "arrow_function", "function_expression"]

def errorHandlerKinds : List String :=
  ["except_clause", "catch_clause"]

def guardKinds : List String :=
  ["raise_statement", "throw_statement", "assert_statement"]

namespace Tree

/-- The lines that a node's tokens stand on, comments left out. -/
def codeLines (t : Tree SyntaxNode) : List Nat :=
  (t.tokens.flatMap fun leaf =>
    List.range' leaf.label.startLine (leaf.label.endLine + 1 - leaf.label.startLine)).eraseDups

/-- The number of lines that hold code. -/
def codeLineCount (t : Tree SyntaxNode) : Nat :=
  t.codeLines.length

/-- A binary expression of a logical operator. -/
def isLogicalBinary (t : Tree SyntaxNode) : Bool :=
  t.kind == "binary_expression" &&
    match t.childByField? "operator" with
    | some operator => operator.label.text.any logicalOperators.contains
    | none => false

/-- An operator that joins conditions. -/
def isLogicalOperator (t : Tree SyntaxNode) : Bool :=
  t.kind == "boolean_operator" || t.isLogicalBinary

/-- A node where the code branches. -/
def isDecision (t : Tree SyntaxNode) : Bool :=
  t.label.named && (decisionKinds.contains t.kind || t.isLogicalBinary)

/-- The branches of a function without those of the functions inside. -/
def decisionPoints (t : Tree SyntaxNode) : Nat :=
  t.walkOwn.countP isDecision

/-- The branches of a whole tree. -/
def allDecisionPoints (t : Tree SyntaxNode) : Nat :=
  t.walk.countP isDecision

/-- The branches and one. -/
def cyclomaticComplexity (t : Tree SyntaxNode) : Nat :=
  t.decisionPoints + 1

/-- An `if` right after an `else`. -/
def isElseIf (t : Tree SyntaxNode) (parent : Option (Tree SyntaxNode)) : Bool :=
  t.kind == "if_statement" && parent.any fun p => p.kind == "else_clause"

/-- A node below which one level of nesting more is open. -/
def opensNesting (t : Tree SyntaxNode) (parent : Option (Tree SyntaxNode)) : Bool :=
  t.label.named && nestingKinds.contains t.kind && !t.isElseIf parent

/-- The levels around a node and the node above it. -/
structure Level where
  depth : Nat
  parent : Option (Tree SyntaxNode)

/-- The level that a node opens, and the level of its children. -/
def nestingStep (level : Level) (t : Tree SyntaxNode) : List Nat × Option Level :=
  if t.label.isError || (level.parent.isSome && t.label.isFunction) then ([], none)
  else if t.opensNesting level.parent then
    ([level.depth + 1], some ⟨level.depth + 1, some t⟩)
  else ([], some ⟨level.depth, some t⟩)

/-- The most control structures that are open at once. -/
def maxNestingDepth (t : Tree SyntaxNode) : Nat :=
  (t.collect nestingStep ⟨0, none⟩).foldl max 0

/-- Whether an `else` without a condition belongs to an `if`. -/
def isPlainElse (t : Tree SyntaxNode) (parent : Option (Tree SyntaxNode)) : Bool :=
  t.kind == "else_clause" && (parent.any fun p => p.kind == "if_statement") &&
    !t.namedChildren.any fun c => c.kind == "if_statement"

/-- What a node costs, and the level of its children. -/
def cognitiveStep (level : Level) (t : Tree SyntaxNode) : List Nat × Option Level :=
  let same : Option Level := some ⟨level.depth, some t⟩
  let deeper : Option Level := some ⟨level.depth + 1, some t⟩
  if t.label.isError || !t.label.named then ([], none)
  else if t.label.isFunction && !nestedScopeKinds.contains t.kind then ([], none)
  else if t.isElseIf level.parent then ([1], same)
  else if cognitiveNestedKinds.contains t.kind then ([1 + level.depth], deeper)
  else if t.kind == "elif_clause" || t.isPlainElse level.parent then ([1], same)
  else if t.kind == "else_clause" then ([], same)
  else if t.isLogicalOperator then ([1], same)
  else if nestedScopeKinds.contains t.kind then ([], deeper)
  else ([], same)

/-- The cost of reading a function: deeper branches cost more. -/
def cognitiveComplexity (t : Tree SyntaxNode) : Nat :=
  (collectAll cognitiveStep ⟨0, some t⟩ t.children).foldr (· + ·) 0

end Tree

end CodeHealth
