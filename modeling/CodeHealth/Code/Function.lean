import CodeHealth.Tree.Syntax

/-!
# Functions and classes

The functions and classes of a syntax tree in source order, their parameters, and which functions
are methods of which class.
-/

namespace CodeHealth

/-- The kinds of functions. -/
def functionKinds : List String :=
  ["function_definition", "function_declaration", "generator_function_declaration",
    "method_definition", "arrow_function", "function_expression", "function",
    "generator_function"]

/-- The kinds of classes. -/
def classKinds : List String :=
  ["class_definition", "class_declaration", "abstract_class_declaration", "class"]

/-- The kinds between a class and its methods. -/
def memberContainerKinds : List String :=
  ["block", "class_body", "decorated_definition", "field_definition", "public_field_definition"]

/-- The entries of a parameter list that are no parameters. -/
def parameterMarkers : List String :=
  ["positional_separator", "keyword_separator", "comment", "this"]

/-- The name of what has no name. -/
def anonymousName : String := "<anonymous>"

def SyntaxNode.isFunction (n : SyntaxNode) : Bool :=
  n.named && functionKinds.contains n.kind

def SyntaxNode.isClass (n : SyntaxNode) : Bool :=
  n.named && classKinds.contains n.kind

/-- The name of a definition. -/
def SyntaxNode.shownName (n : SyntaxNode) : String :=
  match n.name with
  | some name => if name == "" then anonymousName else name
  | none => anonymousName

namespace Tree

section labelled

variable {α : Type} (nodeOf : α → SyntaxNode)

/-- A tree and the subtrees below it that belong to it and to no function inside: functions are
listed, but what is inside them is not. Each label stands for a node. -/
def ownSubtrees (t : Tree α) : List (Tree α) :=
  t :: reachAll (fun a => (nodeOf a).isError) (fun a => (nodeOf a).isFunction) t.children

/-- The body of a function, or the whole function where it has none. -/
def bodyOf (t : Tree α) : Tree α :=
  (t.children.find? fun c => (nodeOf c.label).field == some "body").getD t

end labelled

/-- A tree and the subtrees below it that belong to it and to no function inside. -/
def walkOwn (t : Tree SyntaxNode) : List (Tree SyntaxNode) :=
  t.ownSubtrees fun n => n

/-- The text of a leaf that has one. -/
def nonEmptyText? (t : Tree SyntaxNode) : Option String :=
  t.label.text.filter (· != "")

/-- The first identifier in a parameter. -/
def parameterIdentifier? (t : Tree SyntaxNode) : Option String :=
  t.walk.findSome? fun n =>
    if n.kind == "identifier" || n.kind == "shorthand_property_identifier_pattern" then
      n.nonEmptyText?
    else none

/-- The name of a parameter with the stars of a variadic one. -/
def parameterName (t : Tree SyntaxNode) : String :=
  match t.label.text with
  | some text => text
  | none =>
    match t.parameterIdentifier? with
    | some name =>
      if t.kind == "dictionary_splat_pattern" then "**" ++ name
      else if t.kind == "list_splat_pattern" || t.kind == "rest_pattern" then "*" ++ name
      else name
    | none => t.kind

/-- Drops the receiver at the front of a method's parameters. -/
def dropReceiver (names : List String) : List String :=
  match names with
  | first :: rest => if first == "self" || first == "cls" then rest else names
  | [] => []

/-- The names of a function's parameters, without the receiver of a Python method. -/
def parameterNames (t : Tree SyntaxNode) (language : Language) (isMethod : Bool) : List String :=
  match t.childByField? "parameters" with
  | none =>
    match t.childByField? "parameter" with
    | some single => [single.nonEmptyText?.getD single.kind]
    | none => []
  | some list =>
    let names := (list.namedChildren.filter fun p =>
      !(parameterMarkers.contains p.kind || p.label.isError)).map parameterName
    if language == .python && isMethod then dropReceiver names else names

end Tree

/-- A function of a tree. The path leads from the root of the tree to it. -/
structure FunctionDef where
  path : List Nat
  node : Tree SyntaxNode
  name : String
  className : Option String
  parameters : List String

namespace FunctionDef

def startLine (f : FunctionDef) : Nat :=
  f.node.label.startLine

def endLine (f : FunctionDef) : Nat :=
  f.node.label.endLine

/-- The body, or the whole function where it has none. -/
def body (f : FunctionDef) : Tree SyntaxNode :=
  f.node.bodyOf fun n => n

end FunctionDef

/-- What a node is told by those above it: the class around it, and whether it stands directly among
that class's members. -/
structure ClassScope where
  className : Option String
  direct : Bool

/-- The function at a spot, and the scope of its children. -/
def functionStep (language : Language) (scope : ClassScope) (t : Tree (Tree.Spot SyntaxNode)) :
    List FunctionDef × Option ClassScope :=
  let spot := t.label
  let n := spot.tree.label
  if n.isError && !spot.path.isEmpty then ([], none)
  else if n.isClass then ([], some ⟨some n.shownName, true⟩)
  else if n.isFunction then
    ([{ path := spot.path
        node := spot.tree
        name := n.shownName
        className := if scope.direct then scope.className else none
        parameters := spot.tree.parameterNames language scope.direct }],
      some ⟨none, false⟩)
  else
    ([], some ⟨scope.className, scope.direct && memberContainerKinds.contains n.kind⟩)

/-- The functions of a tree in source order. -/
def SourceTree.functions (ast : SourceTree) : List FunctionDef :=
  (ast.root.spots []).collect (functionStep ast.language) ⟨none, false⟩

/-- A class of a tree with the functions defined in its body. -/
structure ClassDef where
  node : Tree SyntaxNode
  name : String
  methods : List FunctionDef

/-- Whether a class has the name that a function was told, and holds its first line. -/
def claims (f : FunctionDef) (c : Tree SyntaxNode) : Bool :=
  f.className == some c.label.shownName &&
    c.label.startLine ≤ f.startLine && f.startLine ≤ c.label.endLine

/-- The classes of a tree in source order. A method belongs to the first class that claims it. -/
def SourceTree.classes (ast : SourceTree) : List ClassDef :=
  let nodes := ast.root.walk.filter fun t => t.label.isClass
  nodes.zipIdx.map fun (c, i) =>
    { node := c
      name := c.label.shownName
      methods := ast.functions.filter fun f => nodes.findIdx? (claims f) == some i }

end CodeHealth
