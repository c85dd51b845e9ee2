import CodeHealth.Code.Function
import CodeHealth.Text.Substring

/-!
# Names that a change of code concerns

What a text offers to its callers and what it needs from elsewhere: the signatures of its public
functions, the names it defines, and the functions it calls without defining them.
-/

namespace CodeHealth

/-- A name that callers may use. Names with an underscore in front are private unless they have two
at both ends. -/
def isPublicName (name : String) : Bool :=
  name != anonymousName &&
    (!Text.startsWith name "_" || (Text.startsWith name "__" && Text.endsWith name "__"))

/-- Whether a function spans another one. -/
def FunctionDef.encloses (outer inner : FunctionDef) : Bool :=
  outer.path != inner.path && outer.node.label.startByte ≤ inner.node.label.startByte &&
    inner.node.label.endByte ≤ outer.node.label.endByte

/-- A function's name with that of its class. -/
def FunctionDef.qualifiedName (f : FunctionDef) : String :=
  match f.className with
  | some c => if c == "" then f.name else s!"{c}.{f.name}"
  | none => f.name

/-- The parameters of a public function. -/
structure Signature where
  name : String
  parameters : List String
  deriving DecidableEq, Repr

/-- The public functions that stand in no other function. -/
def SourceTree.publicFunctions (ast : SourceTree) : List FunctionDef :=
  let functions := ast.functions
  functions.filter fun f => !(functions.any fun g => g.encloses f) && isPublicName f.name

/-- The signatures of the public functions; of several with one name the first counts. -/
def SourceTree.publicSignatures (ast : SourceTree) : List Signature :=
  ast.publicFunctions.foldl
    (fun found f =>
      if found.any fun s => s.name == f.qualifiedName then found
      else found ++ [⟨f.qualifiedName, f.parameters⟩])
    []

/-- The names of the functions and classes that a tree defines. -/
def SourceTree.definedNames (ast : SourceTree) : List String :=
  (ast.functions.map FunctionDef.name ++ ast.classes.map ClassDef.name).eraseDups

def callLikeKinds : List String :=
  ["call", "call_expression", "new_expression"]

def calleeNameKinds : List String :=
  ["identifier", "property_identifier", "type_identifier"]

/-- The node that names what a call calls. -/
def calleeNode? (t : Tree SyntaxNode) : Option (Tree SyntaxNode) :=
  ((t.childByField? "function").or (t.childByField? "constructor")).bind fun callee =>
    if callee.kind == "attribute" then callee.childByField? "attribute"
    else if callee.kind == "member_expression" then callee.childByField? "property"
    else some callee

/-- The name of what a call calls. -/
def SourceTree.calleeName? (ast : SourceTree) (t : Tree SyntaxNode) : Option String :=
  ((calleeNode? t).filter fun n => calleeNameKinds.contains n.kind).map ast.textOf

/-- The names that a tree calls and does not define. -/
def SourceTree.externalCalls (ast : SourceTree) : List String :=
  let called := (ast.root.walk.filter fun t => callLikeKinds.contains t.kind).filterMap
    ast.calleeName?
  let defined := ast.definedNames
  (called.eraseDups).filter fun name => !defined.contains name

end CodeHealth
