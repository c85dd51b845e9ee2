import CodeHealth.Code.Metric
import CodeHealth.Detector.Basic

/-!
# Large classes

Classes with too many lines or too many methods.
-/

namespace CodeHealth.GodClass

/-- How large a class is. -/
structure Size where
  lines : Nat
  methods : Nat

def sizeOf (c : ClassDef) : Size :=
  ⟨c.node.codeLineCount, c.methods.length⟩

/-- Whether a class exceeds one of its limits. -/
def exceeds (options : Options) (size : Size) : Bool :=
  options.maxClassLines < size.lines || options.maxClassMethods < size.methods

/-- The larger of the two quotients of a size and its limit. -/
def ratio (options : Options) (size : Size) : Except DetectorError Rat :=
  if options.maxClassLines == 0 || options.maxClassMethods == 0 then .error .divisionByZero
  else
    .ok (Number.larger (Number.divide size.lines options.maxClassLines)
      (Number.divide size.methods options.maxClassMethods))

/-- The finding of a class that exceeds a limit. A limit of zero has no ratio. -/
def finding (options : Options) (c : ClassDef) : Except DetectorError Finding := do
  let size := sizeOf c
  let ratio ← ratio options size
  let mostMethods ← toDecimal options.maxClassMethods
  let metadata ← Metadata.measured "class size" size.lines options.maxClassLines
    [("methods", Number.nearest size.methods), ("method_threshold", mostMethods)]
  return {
    type := .godClass
    severity := severityFor ratio 1
    confidence := 85
    lineStart := c.node.label.startLine
    lineEnd := c.node.label.endLine
    description :=
      s!"Class '{c.name}' has {size.lines} code lines and {size.methods} methods " ++
        s!"(thresholds {options.maxClassLines} lines, {options.maxClassMethods} methods)"
    metadata := metadata
    className := some c.name }

/-- The issues of the classes that exceed a limit. -/
def issues (ast : SourceTree) (options : Options) : Except DetectorError (List Issue) :=
  issuesAt ast (finding options) (ast.classes.filter fun c => exceeds options (sizeOf c))

def detector : Detector :=
  { name := "god_class"
    issueTypes := [.godClass]
    languages := codeLanguages
    measure? := none
    detect := fun ast context => issues ast context.options }

end CodeHealth.GodClass
