import CodeHealth.Detector.Basic
import CodeHealth.Security.Value
import CodeHealth.Tally
import CodeHealth.Text.Order

/-!
# Security scan

Literal rules on every line, logging calls that show what was bound to a credential, and files that
should not be in a repository.
-/

namespace CodeHealth.Security

/-- The scanner with the rules it applies. -/
structure Scanner where
  rules : List LiteralRule := literalRules

/-- The issue of a file that should not be in a repository. -/
def checkSensitiveFile (ast : SourceTree) (context : FileContext) : List Issue :=
  let name := Path.fileName context.path
  if templateEndings.any (Text.endsWith name) then []
  else
    match sensitiveFilePatterns.find? fun rule => rule.2.occursIn name with
    | none => []
    | some rule =>
      let finding : Finding :=
        { type := .sensitiveFile
          severity := .high
          confidence := context.options.confidenceFor "sensitive_files" 100
          lineStart := 1
          lineEnd := 1
          description := s!"Sensitive file '{name}' is committed to the repository"
          metadata := .security rule.1 none false
          excerpt := some "" }
      [finding.issue ast]

/-- Whether a rule is for files of a language. -/
def LiteralRule.inScope (rule : LiteralRule) (language : Language) : Bool :=
  match rule.scope with
  | .all => true
  | .config => language == .config
  | .code => language != .config

/-- What a rule finds in a line: the value it captures, if any, without quotes. -/
structure Hit where
  value : Option String

/-- The value of a match. -/
def valueOf (place : Pattern.Place) : Option String :=
  (place.captured? "value").map fun cs => stripQuotes (String.ofList cs)

/-- What a rule finds in a line. Placeholders do not count as credentials or secrets. -/
def LiteralRule.hit? (rule : LiteralRule) (line : String) : Option Hit :=
  match rule.pattern.search? line.toList with
  | none => none
  | some place =>
    let value := valueOf place
    if rule.family.isConfidential && value.any isPlaceholder then none else some ⟨value⟩

/-- The value of a hit as it may be shown. -/
def LiteralRule.shownValue (rule : LiteralRule) (hit : Hit) : Option String :=
  if rule.family.isConfidential then hit.value.map maskValue else hit.value

/-- The finding of a rule on a line. -/
def LiteralRule.finding (rule : LiteralRule) (options : Options) (number : Nat) (line : String)
    (hit : Hit) : Finding :=
  let shown := rule.shownValue hit
  let detail :=
    match shown with
    | some text => if text == "" then "" else ": " ++ text
    | none => ""
  { type := rule.type
    severity := rule.severity
    confidence := options.confidenceFor rule.family.tag rule.confidence
    lineStart := number
    lineEnd := number
    description := s!"{rule.description} on line {number}{detail}"
    metadata := .security rule.id shown false
    excerpt := some (Text.strip (redact line hit.value shown)) }

/-- The findings of some rules on a line. -/
def lineFindings (rules : List LiteralRule) (options : Options) (number : Nat) (line : String) :
    List Finding :=
  rules.filterMap fun rule => (rule.hit? line).map (rule.finding options number line)

/-- Applies the rules to every line of the text. -/
def Scanner.scanLines (scanner : Scanner) (ast : SourceTree) (context : FileContext) :
    List Issue :=
  let rules := scanner.rules.filter fun rule => rule.inScope context.language
  (ast.lines.zipIdx 1).flatMap fun (line, number) =>
    (lineFindings rules context.options number line).map (Finding.issue · ast)

/-- The kinds of string literals. -/
def stringKinds : List String :=
  ["string", "template_string", "concatenated_string"]

/-- The kinds of expressions that refer to a value by name. -/
def referenceKinds : List String :=
  ["identifier", "attribute", "member_expression", "shorthand_property_identifier"]

def callKinds : List String :=
  ["call", "call_expression"]

/-- A name bound to a value. -/
structure Binding where
  target : Tree SyntaxNode
  value : Tree SyntaxNode

/-- The binding that a node makes. -/
def binding? (t : Tree SyntaxNode) : Option Binding :=
  let fields :=
    if t.kind == "assignment" || t.kind == "assignment_expression" then some ("left", "right")
    else if t.kind == "variable_declarator" then some ("name", "value")
    else none
  match fields with
  | none => none
  | some (left, right) =>
    match t.childByField? left, t.childByField? right with
    | some target, some value => some ⟨target, value⟩
    | _, _ => none

/-- Whether a literal bound to a name looks like a credential. -/
def Scanner.isCredential (scanner : Scanner) (name literal : String) : Bool :=
  let value := stripQuotes literal
  !(isPlaceholder value || value.length < 4) &&
    (isSensitiveName name ||
      (scanner.rules.filter fun rule => rule.family.isConfidential).any fun rule =>
        rule.pattern.occursIn (name ++ " = " ++ literal))

/-- Whether a binding binds a credential, given the names known to be bound to one. -/
def Scanner.bindsCredential (scanner : Scanner) (ast : SourceTree) (tainted : List String)
    (b : Binding) : Bool :=
  if stringKinds.contains b.value.kind then
    scanner.isCredential (ast.textOf b.target) (ast.textOf b.value)
  else referenceKinds.contains b.value.kind && tainted.contains (ast.textOf b.value)

/-- The names bound, directly or by copy, to credentials. -/
def Scanner.credentialNames (scanner : Scanner) (ast : SourceTree) : List String :=
  (ast.root.walk.filterMap binding?).foldl
    (fun tainted b =>
      let name := ast.textOf b.target
      if scanner.bindsCredential ast tainted b && !tainted.contains name then tainted ++ [name]
      else tainted)
    []

/-- The references in the arguments of a call. -/
def references (ast : SourceTree) (arguments : Tree SyntaxNode) : List String :=
  ((arguments.walk.filter fun n =>
    referenceKinds.contains n.kind && n.label.field != some "name").map ast.textOf).eraseDups

/-- The references that a logging call shows. -/
def loggedReferences? (ast : SourceTree) (t : Tree SyntaxNode) : Option (List String) :=
  if !callKinds.contains t.kind then none
  else
    match t.childByField? "function", t.childByField? "arguments" with
    | some callee, some arguments =>
      if isLogCallee (Text.removeBlanks (ast.textOf callee)) then some (references ast arguments)
      else none
    | _, _ => none

/-- The finding of a logging call: of a name bound to a credential, or else of a name that speaks
of one. -/
def loggingFinding? (options : Options) (tainted : List String) (t : Tree SyntaxNode)
    (references : List String) : Option Finding :=
  let derived := (Text.sorted (references.filter tainted.contains)).head?
  let named := (Text.sorted (references.filter isSensitiveName)).head?
  (derived.or named).map fun logged =>
    { type := .unsafeLogging
      severity := .high
      confidence := options.confidenceFor "unsafe_logging" (if derived.isSome then 90 else 70)
      lineStart := t.label.startLine
      lineEnd := t.label.endLine
      description := s!"Logging call may expose sensitive value '{logged}'"
      metadata := .security "unsafe-logging" none derived.isSome }

/-- The logging calls that show a credential. -/
def Scanner.checkLoggingCalls (scanner : Scanner) (ast : SourceTree) (context : FileContext) :
    List Issue :=
  let tainted := scanner.credentialNames ast
  ast.root.walk.filterMap fun t =>
    (loggedReferences? ast t).bind fun references =>
      (loggingFinding? context.options tainted t references).map (Finding.issue · ast)

/-- Every finding in a file. Tests are scanned for secrets only if the options say so. -/
def Scanner.scan (scanner : Scanner) (ast : SourceTree) (context : FileContext) : List Issue :=
  checkSensitiveFile ast context ++
    if isTestPath context.path && !context.options.scanTestFiles then []
    else
      scanner.scanLines ast context ++
        if ast.language.isCode then scanner.checkLoggingCalls ast context else []

def Scanner.detector (scanner : Scanner) : Detector :=
  { name := "security"
    issueTypes := IssueType.all.filter IssueType.isSecurity
    languages := codeLanguages ++ [.config]
    measure? := none
    detect := fun ast context => .ok (scanner.scan ast context) }

/-- The number of security findings by type and by severity. -/
structure Summary where
  total : Nat
  byType : List (String × Int)
  bySeverity : List (String × Int)

/-- How many issues there are of each severity. -/
def countBySeverity (issues : List Issue) : List (String × Int) :=
  Severity.all.map fun s => (s.tag, (issues.countP fun i => i.severity == s : Nat))

/-- How many issues there are of each type that occurs, in the order of the tags. -/
def countByType (issues : List Issue) : List (String × Int) :=
  (Tally.ofList (issues.map fun i => i.type.tag)).mergeSort fun a b => a.1 ≤ b.1

def summary (issues : List Issue) : Summary :=
  let found := issues.filter fun i => i.type.isSecurity
  ⟨found.length, countByType found, countBySeverity found⟩

end CodeHealth.Security
