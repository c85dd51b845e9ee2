import CodeHealth.Issue.Basic
import CodeHealth.Number.Rounding
import CodeHealth.Options
import CodeHealth.Tree.Syntax

/-!
# Finding issues

What every detector knows about a file, how severe a crossed threshold is, and the issue of a
finding.
-/

namespace CodeHealth

/-- What a detector knows about a file. -/
structure FileContext where
  projectId : String
  path : String
  language : Language
  options : Options

/-- The severity by how far a value is past its threshold: more than twice, more than one and a half
times, or less. -/
def severityFor (value threshold : Rat) : Severity :=
  if threshold * 2 < value then .critical
  else if Number.nearest (Number.nearest threshold * (3 / 2)) < value then .high
  else .medium

/-- A finding in a range of lines. -/
structure Finding where
  type : IssueType
  severity : Severity
  confidence : Int
  lineStart : Nat
  lineEnd : Nat
  description : String
  metadata : Metadata
  functionName : Option String := none
  className : Option String := none
  excerpt : Option String := none

/-- The issue of a finding. Where no excerpt is given it shows the first six lines of the range. -/
def Finding.issue (f : Finding) (ast : SourceTree) : Issue :=
  { id := none
    type := f.type
    severity := f.severity
    confidence := f.confidence.toNat
    filePath := ast.path
    lineStart := f.lineStart
    lineEnd := max f.lineStart f.lineEnd
    functionName := f.functionName
    className := f.className
    description := f.description
    recommendation := f.type.recommendation
    codeExcerpt := f.excerpt.getD (ast.excerpt f.lineStart f.lineEnd 6)
    duplicateGroupId := none
    metadata := f.metadata
    status := .pending }

end CodeHealth
