import CodeHealth.Language
import CodeHealth.Text.Bytes
import CodeHealth.Tree.Basic

/-!
# Syntax trees

The nodes of a normalized syntax tree, the walks over well-formed nodes, and a source text together
with its tree.
-/

namespace CodeHealth

/-- A node of a normalized tree. Lines count from one and columns from zero. A leaf carries its
text, and a definition its name. -/
structure SyntaxNode where
  kind : String
  startLine : Nat
  startColumn : Nat
  endLine : Nat
  endColumn : Nat
  startByte : Nat
  endByte : Nat
  named : Bool
  field : Option String
  name : Option String
  text : Option String
  isError : Bool
  deriving DecidableEq, Repr

/-- The kinds of comments. -/
def commentKinds : List String :=
  ["comment", "line_comment", "block_comment", "html_comment"]

/-- Whether a node covers no bytes. -/
def SyntaxNode.isEmpty (n : SyntaxNode) : Bool :=
  n.startByte == n.endByte

namespace Tree

/-- The node at a place. -/
def Spot.node (s : Spot SyntaxNode) : SyntaxNode :=
  s.tree.label

/-- The kind of the root. -/
def kind (t : Tree SyntaxNode) : String :=
  t.label.kind

/-- The first child in a field. -/
def childByField? (t : Tree SyntaxNode) (field : String) : Option (Tree SyntaxNode) :=
  t.children.find? fun c => c.label.field == some field

/-- The children in a field. -/
def childrenByField (t : Tree SyntaxNode) (field : String) : List (Tree SyntaxNode) :=
  t.children.filter fun c => c.label.field == some field

/-- The children that are no mere punctuation. -/
def namedChildren (t : Tree SyntaxNode) : List (Tree SyntaxNode) :=
  t.children.filter fun c => c.label.named

/-- The subtrees in pre-order without malformed ones. -/
def walk (t : Tree SyntaxNode) : List (Tree SyntaxNode) :=
  t.reach (·.isError) fun _ => false

/-- All subtrees in pre-order. -/
def walkAll (t : Tree SyntaxNode) : List (Tree SyntaxNode) :=
  t.reach (fun _ => false) fun _ => false

/-- Whether a subtree is a token: it has no children and covers some bytes. -/
def isToken (t : Tree SyntaxNode) : Bool :=
  t.children.isEmpty && !t.label.isEmpty

/-- The tokens of the well-formed part in source order, comments among them. -/
def tokensWithComments (t : Tree SyntaxNode) : List (Tree SyntaxNode) :=
  t.walk.filter isToken

/-- The tokens of the well-formed part in source order, without comments. -/
def tokens (t : Tree SyntaxNode) : List (Tree SyntaxNode) :=
  t.walk.filter fun n => n.isToken && !commentKinds.contains n.kind

/-- The number of subtrees with one of the given kinds, punctuation left out. -/
def countKinds (t : Tree SyntaxNode) (kinds : List String) : Nat :=
  t.walk.countP fun n => n.label.named && kinds.contains n.kind

end Tree

/-- A source text with its syntax tree. -/
structure SourceTree where
  path : String
  language : Language
  source : String
  root : Tree SyntaxNode
  hasErrors : Bool
  truncated : Bool
  nodeCount : Nat

namespace SourceTree

/-- The lines of the text. -/
def lines (ast : SourceTree) : List String :=
  Text.linesOf ast.source

/-- The text that a node covers. -/
def textOf (ast : SourceTree) (t : Tree SyntaxNode) : String :=
  match t.label.text with
  | some s => s
  | none => Text.sliceBytes ast.source.toUTF8 t.label.startByte t.label.endByte

/-- The place that a position stands for in a list of the given length: a negative one counts from
the end. -/
def clampIndex (length : Nat) (i : Int) : Nat :=
  if i < 0 then (i + length).toNat else min i.toNat length

/-- The first lines of a range, at most `most`. -/
def excerpt (ast : SourceTree) (lineStart lineEnd : Int) (most : Int) : String :=
  let lines := ast.lines
  let start := clampIndex lines.length (lineStart - 1)
  let stop := clampIndex lines.length (min lineEnd (lineStart + most - 1))
  String.intercalate "\n" ((lines.drop start).take (stop - start))

end SourceTree

end CodeHealth
