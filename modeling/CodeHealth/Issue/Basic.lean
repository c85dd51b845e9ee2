import CodeHealth.Issue.Kind
import CodeHealth.Review

/-!
# Issues

A finding in a file with the numbers behind it.
-/

namespace CodeHealth

/-- The numbers behind a finding. -/
inductive Metadata where
  | complexity (metric : String) (value threshold : Rat) (extra : List (String × Rat))
  | duplicate (matchType : MatchType) (similarity : Rat) (groupSize lineCount tokenCount : Int)
  | security (ruleId : String) (maskedValue : Option String) (credentialDerived : Bool)
  | generic (values : List (String × Rat))
  deriving DecidableEq, Repr

namespace Metadata

/-- The family of a variant. -/
inductive Family where
  | complexity
  | duplicate
  | security
  | generic
  deriving DecidableEq, Repr

def Family.tag : Family → String
  | .complexity => "complexity"
  | .duplicate => "duplicate"
  | .security => "security"
  | .generic => "generic"

def Family.all : List Family :=
  [.complexity, .duplicate, .security, .generic]

def Family.ofTag? (tag : String) : Option Family :=
  Family.all.find? fun f => f.tag == tag

def family : Metadata → Family
  | .complexity .. => .complexity
  | .duplicate .. => .duplicate
  | .security .. => .security
  | .generic .. => .generic

end Metadata

/-- The metadata family that a type of issue carries. -/
def IssueType.family (t : IssueType) : Metadata.Family :=
  if t.isSecurity then .security
  else if t == .duplicateCode then .duplicate
  else .complexity

/-- A finding in a range of lines of a file. -/
structure Issue where
  id : Option String
  type : IssueType
  severity : Severity
  confidence : Nat
  filePath : String
  lineStart : Nat
  lineEnd : Nat
  functionName : Option String
  className : Option String
  description : String
  recommendation : String
  codeExcerpt : String
  duplicateGroupId : Option String
  metadata : Metadata
  status : ReviewStatus
  deriving DecidableEq, Repr

namespace Issue

/-- Two findings with one key are the same finding. -/
structure Key where
  type : IssueType
  filePath : String
  lineStart : Nat
  lineEnd : Nat
  deriving DecidableEq, Repr

def key (issue : Issue) : Key :=
  ⟨issue.type, issue.filePath, issue.lineStart, issue.lineEnd⟩

/-- What holds between the fields of an issue: its lines are in order, and its metadata is of the
family of its type or generic. -/
def isConsistent (issue : Issue) : Bool :=
  issue.lineStart ≤ issue.lineEnd &&
    (issue.metadata.family == issue.type.family || issue.metadata.family == .generic)

/-- The issue after a review step. -/
def withStatus (issue : Issue) (new : ReviewStatus) : Except TransitionError Issue :=
  (ReviewStatus.move "issue status" issue.status new).map fun s => { issue with status := s }

end Issue

end CodeHealth
