import CodeHealth.Tree.Cursor
import CodeHealth.Tree.Syntax

/-!
# Normalization

Turns the tree that a grammar's parser reports into a syntax tree: lines, columns, the texts of
leaves and the names of definitions. A walk in pre-order copies the nodes within a budget.
-/

namespace CodeHealth

/-- A node as a grammar's parser reports it, with the bytes it covers. -/
structure GrammarNode where
  kind : String
  startByte : Nat
  endByte : Nat
  field : Option String
  named : Bool
  missing : Bool
  deriving DecidableEq, Repr

/-- A node that stands for malformed text. -/
def GrammarNode.isError (n : GrammarNode) : Bool :=
  n.kind == "ERROR" || n.missing

/-- A tree as a grammar's parser reports it, with its own flag for malformed text. -/
structure GrammarTree where
  root : Tree GrammarNode
  hasError : Bool

namespace Normalize

/-- The kinds whose `name` field holds the name that they define. -/
def symbolKinds : List String :=
  ["function_definition", "class_definition", "function_declaration",
    "generator_function_declaration", "class_declaration", "abstract_class_declaration",
    "method_definition", "interface_declaration", "class"]

/-- The kinds of functions that take their name from what they are bound to. -/
def anonymousFunctionKinds : List String :=
  ["arrow_function", "function_expression", "function", "generator_function"]

/-- The fields beside an anonymous function that can hold its name. -/
def bindingFields : List String :=
  ["name", "key", "left", "property"]

/-- A node's place among its siblings. The root has none. -/
structure Family where
  siblings : List (Tree GrammarNode)
  index : Nat

/-- The place of the first tree in a field. -/
def fieldIndex? (trees : List (Tree GrammarNode)) (field : String) : Option Nat :=
  trees.findIdx? fun t => t.label.field == some field

/-- The bytes of a text, for slices and for places. -/
structure Source where
  bytes : ByteArray
  list : List UInt8

def Source.ofText (text : String) : Source :=
  let bytes := text.toUTF8
  ⟨bytes, bytes.data.toList⟩

/-- The text that a node covers. -/
def Source.textOf (source : Source) (n : GrammarNode) : String :=
  Text.sliceBytes source.bytes n.startByte n.endByte

/-- The text of the first tree in a field. -/
def fieldText? (source : Source) (trees : List (Tree GrammarNode)) (field : String) :
    Option String :=
  (trees.find? fun t => t.label.field == some field).map fun t => source.textOf t.label

/-- The name that a node at a place among its siblings has by a binding beside it. -/
def siblingName? (source : Source) (family : Family) : Option String :=
  bindingFields.findSome? fun field =>
    match fieldIndex? family.siblings field with
    | some i => if i == family.index then none else fieldText? source family.siblings field
    | none => none

/-- The name that a node defines. -/
def nameOf? (source : Source) (family : Option Family) (t : Tree GrammarNode) : Option String :=
  if symbolKinds.contains t.label.kind then fieldText? source t.children "name"
  else if anonymousFunctionKinds.contains t.label.kind then
    match fieldText? source t.children "name" with
    | some name => some name
    | none => family.bind (siblingName? source)
  else none

/-- The normalized form of one node. -/
def nodeOf (source : Source) (family : Option Family) (t : Tree GrammarNode) : SyntaxNode :=
  let n := t.label
  let first := Text.pointAt source.list n.startByte
  let last := Text.pointAt source.list n.endByte
  { kind := n.kind
    startLine := first.row + 1
    startColumn := first.column
    endLine := last.row + 1
    endColumn := last.column
    startByte := n.startByte
    endByte := n.endByte
    named := n.named
    field := if family.isSome then n.field else none
    name := nameOf? source family t
    text := if t.children.isEmpty then some (source.textOf n) else none
    isError := n.isError }

mutual

/-- The normalized form of every node. -/
def full (source : Source) (family : Option Family) : Tree GrammarNode → Tree SyntaxNode
  | .node n cs => .node (nodeOf source family (.node n cs)) (fullAll source cs 0 cs)

def fullAll (source : Source) (siblings : List (Tree GrammarNode)) (index : Nat) :
    List (Tree GrammarNode) → List (Tree SyntaxNode)
  | [] => []
  | t :: ts => full source (some ⟨siblings, index⟩) t :: fullAll source siblings (index + 1) ts

end

end Normalize

/-- The nodes of a tree that a budget keeps, normalized. -/
def normalize (text : String) (budget : Int) (root : Tree GrammarNode) : Tree.Copy SyntaxNode :=
  (Normalize.full (Normalize.Source.ofText text) none root).copyWithin budget

end CodeHealth
