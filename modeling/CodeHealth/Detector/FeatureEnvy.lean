import CodeHealth.Detector.Basic
import CodeHealth.Tally

/-!
# Feature envy

Methods that use the members of another object more than their own.
-/

namespace CodeHealth.FeatureEnvy

/-- The receivers that are modules or globals. -/
def globalReceivers : List String :=
  ["console", "Math", "JSON", "Object", "Array", "Promise", "Number", "String",
    "logger", "logging", "log", "os", "sys", "re", "json", "math", "super"]

def importKinds : List String :=
  ["import_statement", "import_from_statement", "import_declaration"]

/-- The names in the imports of a tree. -/
def importedNames (root : Tree SyntaxNode) : List String :=
  ((root.walk.filter fun t => importKinds.contains t.kind).flatMap fun t =>
    (t.walk.filter fun n => n.kind == "identifier").filterMap Tree.nonEmptyText?).eraseDups

/-- The object whose member a node accesses. -/
def receiver? (t : Tree SyntaxNode) : Option String :=
  if t.kind == "attribute" || t.kind == "member_expression" then
    match t.childByField? "object" with
    | some object =>
      if object.kind == "this" then some "this"
      else if object.kind == "identifier" then object.label.text
      else none
    | none => none
  else none

/-- A receiver that stands for the object itself. -/
def isOwn (receiver : String) : Bool :=
  receiver == "self" || receiver == "this" || receiver == "cls"

/-- How often a function uses its own members and those of others. -/
structure Accesses where
  own : Nat
  others : Tally String

def accesses (imported : List String) (f : FunctionDef) : Accesses :=
  let receivers := f.body.walkOwn.filterMap receiver?
  { own := receivers.countP isOwn
    others := Tally.ofList (receivers.filter fun r =>
      !(isOwn r || imported.contains r || globalReceivers.contains r)) }

/-- The receiver with the most accesses; of several the first in the order of names. -/
def mostAccessed? (others : Tally String) : Option (String × Int) :=
  (others.mergeSort fun a b => a.1 ≤ b.1).foldl
    (fun best e =>
      match best with
      | some b => if b.2 < e.2 then some e else best
      | none => some e)
    none

/-- A method that uses another object often and more than its own, with the uses of that object. -/
structure Envy where
  method : FunctionDef
  own : Nat
  envied : String
  count : Int

def envy? (imported : List String) (minimum : Int) (f : FunctionDef) : Option Envy :=
  if f.className.isNone then none
  else
    let used := accesses imported f
    match mostAccessed? used.others with
    | some (envied, count) =>
      if count < minimum || count ≤ used.own then none else some ⟨f, used.own, envied, count⟩
    | none => none

def finding (minimum : Int) (e : Envy) : Except DetectorError Finding := do
  let metadata ← Metadata.measured "external accesses" e.count minimum
    [("local_accesses", Number.nearest e.own)]
  return {
    type := .featureEnvy
    severity := .medium
    confidence := 70
    lineStart := e.method.startLine
    lineEnd := e.method.endLine
    description :=
      s!"Method '{e.method.name}' accesses '{e.envied}' {e.count} times " ++
        s!"but its own members only {e.own} times"
    metadata := metadata
    functionName := some e.method.name
    className := e.method.className }

/-- The issues of the methods that use another object often and more than their own. -/
def issues (ast : SourceTree) (options : Options) : Except DetectorError (List Issue) :=
  let imported := importedNames ast.root
  let minimum := options.featureEnvyMinAccesses
  issuesAt ast (finding minimum) (ast.functions.filterMap (envy? imported minimum))

def detector : Detector :=
  { name := "feature_envy"
    issueTypes := [.featureEnvy]
    languages := codeLanguages
    measure? := none
    detect := fun ast context => issues ast context.options }

end CodeHealth.FeatureEnvy
