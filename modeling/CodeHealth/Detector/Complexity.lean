import CodeHealth.Code.Metric
import CodeHealth.Detector.Basic
import CodeHealth.Pattern.Basic

/-!
# Functions above a threshold

Long functions, long parameter lists, deep nesting, and high cyclomatic or cognitive complexity.
-/

namespace CodeHealth

/-- A number per function and what is said of one above its threshold. -/
structure FunctionMetric where
  type : IssueType
  metric : String
  threshold : Options → Int
  measure : FunctionDef → Nat
  confidence : FunctionDef → Int
  describe : FunctionDef → Nat → Int → String

namespace FunctionMetric

/-- The finding of a function above the threshold. -/
def finding (m : FunctionMetric) (threshold : Int) (f : FunctionDef) :
    Except DetectorError Finding := do
  let value := m.measure f
  let metadata ← Metadata.measured m.metric value threshold []
  return {
    type := m.type
    severity := severityFor value threshold
    confidence := m.confidence f
    lineStart := f.startLine
    lineEnd := f.endLine
    description := m.describe f value threshold
    metadata := metadata
    functionName := some f.name
    className := f.className }

/-- The issues of the functions above the threshold. -/
def issues (m : FunctionMetric) (ast : SourceTree) (options : Options) :
    Except DetectorError (List Issue) :=
  let threshold := m.threshold options
  issuesAt ast (m.finding threshold) (ast.functions.filter fun f => threshold < m.measure f)

/-- The detector of a metric, named like its issues. -/
def detector (m : FunctionMetric) : Detector :=
  { name := m.type.tag
    issueTypes := [m.type]
    languages := codeLanguages
    measure? := some m.measure
    detect := fun ast context => m.issues ast context.options }

/-- What is said of most metrics. -/
def describeValue (metric : String) (f : FunctionDef) (value : Nat) (threshold : Int) : String :=
  s!"Function '{f.name}' has {metric} {value} (threshold {threshold})"

/-- The names of functions that are long by convention. -/
def entryPointPattern : Pattern :=
  open Pattern in
  .atStart ++
    oneOf [lit "main", lit "setup", lit "setUp", lit "configure", lit "init",
      lit "test" ++ star (wordOr ""), lit "it", lit "describe"] ++ .atEnd

def isEntryPoint (name : String) : Bool :=
  entryPointPattern.matchesStart name

def longMethod : FunctionMetric :=
  { type := .longMethod
    metric := "code lines"
    threshold := fun o => o.maxMethodLines
    measure := fun f => f.node.codeLineCount
    confidence := fun f => if isEntryPoint f.name then 75 else 90
    describe := fun f value threshold =>
      s!"Function '{f.name}' is {value} code lines long (threshold {threshold})" }

def longParameterList : FunctionMetric :=
  { type := .longParameterList
    metric := "parameter count"
    threshold := fun o => o.maxParameters
    measure := fun f => f.parameters.length
    confidence := fun _ => 95
    describe := fun f value threshold =>
      s!"Function '{f.name}' takes {value} parameters (threshold {threshold}): " ++
        String.intercalate ", " f.parameters }

def deepNesting : FunctionMetric :=
  { type := .deepNesting
    metric := "nesting depth"
    threshold := fun o => o.maxNestingDepth
    measure := fun f => f.node.maxNestingDepth
    confidence := fun _ => 90
    describe := describeValue "nesting depth" }

def highComplexity : FunctionMetric :=
  { type := .highComplexity
    metric := "cyclomatic complexity"
    threshold := fun o => o.maxCyclomaticComplexity
    measure := fun f => f.node.cyclomaticComplexity
    confidence := fun _ => 90
    describe := describeValue "cyclomatic complexity" }

def cognitiveComplexity : FunctionMetric :=
  { type := .cognitiveComplexity
    metric := "cognitive complexity"
    threshold := fun o => o.maxCognitiveComplexity
    measure := fun f => f.node.cognitiveComplexity
    confidence := fun _ => 85
    describe := describeValue "cognitive complexity" }

end FunctionMetric

end CodeHealth
