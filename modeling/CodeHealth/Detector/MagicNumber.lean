import CodeHealth.Detector.Basic
import CodeHealth.Number.Literal

/-!
# Magic numbers

Numeric literals that have no name, one issue per line.
-/

namespace CodeHealth.MagicNumber

def numberKinds : List String :=
  ["integer", "float", "number"]

/-- The nodes whose literals are default values. -/
def defaultValueKinds : List String :=
  ["default_parameter", "typed_default_parameter", "assignment_pattern", "optional_parameter"]

/-- The values that need no name. -/
def allowedNumbers : List Rat :=
  [0, 1, -1, 2, 1 / 2, 10, 24, 60, 100, 365, 1000]

/-- The status codes that need no name. -/
def statusCodes : List Rat :=
  [200, 201, 204, 301, 302, 304, 400, 401, 403, 404, 409, 422, 429, 500, 502, 503]

/-- The value of a literal, read as an integer if it can be. -/
def literalValue? (text : String) : Option Number.Reading :=
  let digits := (text.toList.filter (· != '_'))
  let cleaned := Text.dropEndWhile (fun c => "nLljJ".toList.contains c) digits
  match Number.readInteger? cleaned with
  | some n => some (.finite n)
  | none => Number.readDecimal? cleaned

/-- Whether a literal needs a name. -/
def isMagic (text : String) : Except DetectorError Bool :=
  match literalValue? text with
  | none => .ok false
  | some (.infinite _) => .ok true
  | some .undefined => .error .notANumber
  | some (.finite q) =>
    if allowedNumbers.contains q || statusCodes.contains q then .ok false
    else .ok (2 < q.abs || q.den != 1)

/-- A binding of a name in capitals names the literals in it. -/
def isConstantBinding (t : Tree SyntaxNode) : Bool :=
  let target :=
    if t.kind == "assignment" then t.childByField? "left"
    else if t.kind == "variable_declarator" then t.childByField? "name"
    else none
  target.any fun n => n.label.text.any Text.isUpperText

/-- The literals that have no name, and whether those below have one. -/
def literalStep (exempt : Bool) (t : Tree SyntaxNode) : List (Tree SyntaxNode) × Option Bool :=
  if t.label.isError then ([], none)
  else if numberKinds.contains t.kind && t.nonEmptyText?.isSome && !exempt then ([t], none)
  else ([], some (exempt || defaultValueKinds.contains t.kind || isConstantBinding t))

/-- A literal with its line. -/
structure Literal where
  line : Nat
  text : String

/-- The literals of a tree that have no name, in source order. -/
def unnamedLiterals (root : Tree SyntaxNode) : List Literal :=
  (root.collect literalStep false).map fun t => ⟨t.label.startLine, t.label.text.getD ""⟩

/-- The literals that need a name. -/
def magicLiterals (root : Tree SyntaxNode) : Except DetectorError (List Literal) :=
  (unnamedLiterals root).filterM fun l => isMagic l.text

/-- The lines of some literals in increasing order. -/
def linesOf (literals : List Literal) : List Nat :=
  ((literals.map Literal.line).eraseDups).mergeSort

def finding (ast : SourceTree) (line : Nat) (texts : List String) : Finding :=
  let plural := if 1 < texts.length then "s" else ""
  { type := .magicNumber
    severity := .medium
    confidence := 75
    lineStart := line
    lineEnd := line
    description := s!"Magic number{plural} " ++ String.intercalate ", " texts ++ s!" on line {line}"
    metadata := .complexity "magic numbers" (Number.nearest texts.length) 0 []
    excerpt := some (ast.excerpt line line 1) }

/-- One issue per line that has magic numbers. -/
def issues (ast : SourceTree) : Except DetectorError (List Issue) :=
  (magicLiterals ast.root).map fun literals =>
    (linesOf literals).map fun line =>
      (finding ast line ((literals.filter fun l => l.line == line).map Literal.text)).issue ast

def detector : Detector :=
  { name := "magic_number"
    issueTypes := [.magicNumber]
    languages := codeLanguages
    measure? := none
    detect := fun ast _ => issues ast }

end CodeHealth.MagicNumber
