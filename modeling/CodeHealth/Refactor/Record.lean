import CodeHealth.Issue.Record

/-!
# Refactoring records

A candidate for new code, the request to verify it, the lines it changes, the outcome of each step
of the verification, and the suggestion that holds all of it.
-/

namespace CodeHealth

open Schema

/-- How a line changes. -/
inductive ChangeType where
  | add
  | modify
  | remove
  deriving DecidableEq, Repr

namespace ChangeType

def tag : ChangeType → String
  | .add => "add"
  | .modify => "modify"
  | .remove => "remove"

def all : List ChangeType :=
  [.add, .modify, .remove]

def ofTag? (tag : String) : Option ChangeType :=
  all.find? fun t => t.tag == tag

end ChangeType

/-- The outcome of a step of the verification. -/
inductive LayerStatus where
  | pass
  | warning
  | fail
  deriving DecidableEq, Repr

namespace LayerStatus

def tag : LayerStatus → String
  | .pass => "pass"
  | .warning => "warning"
  | .fail => "fail"

def all : List LayerStatus :=
  [.pass, .warning, .fail]

def ofTag? (tag : String) : Option LayerStatus :=
  all.find? fun s => s.tag == tag

end LayerStatus

/-- How far a candidate can be trusted. -/
inductive Badge where
  | verified
  | warning
  | failed
  deriving DecidableEq, Repr

namespace Badge

def tag : Badge → String
  | .verified => "verified"
  | .warning => "warning"
  | .failed => "failed"

def all : List Badge :=
  [.verified, .warning, .failed]

def ofTag? (tag : String) : Option Badge :=
  all.find? fun b => b.tag == tag

/-- The confidence in a candidate with the badge. -/
def confidence : Badge → Nat
  | .verified => 95
  | .warning => 60
  | .failed => 0

/-- The badge of some outcomes: failed if one failed or there is none, verified if all passed. -/
def ofStatuses (statuses : List LayerStatus) : Badge :=
  if statuses.isEmpty || statuses.contains .fail then .failed
  else if statuses.all (· == .pass) then .verified
  else .warning

end Badge

/-- One changed line. The number is that of the old line if it is removed, and otherwise that of the
new line. -/
structure LineChange where
  lineNumber : Nat
  type : ChangeType
  content : String
  oldContent : Option String
  deriving DecidableEq, Repr

namespace LineChange

def read : Reader LineChange := readRecord .modelAttributesType fun d =>
  LineChange.mk <$> field d "line_number" (readNat 1 none)
    <*> field d "type" (readTag ChangeType.ofTag? .enumeration)
    <*> fieldOr d "content" readText ""
    <*> fieldOr d "original_content" (readOptional readText) none

def toDatum (c : LineChange) : Datum :=
  .object [("line_number", .ofNat c.lineNumber), ("type", .str c.type.tag),
    ("content", .str c.content), ("original_content", .ofOption c.oldContent)]

end LineChange

/-- The outcome of one named step of the verification. -/
structure ValidationLayer where
  name : String
  status : LayerStatus
  detail : String
  deriving DecidableEq, Repr

namespace ValidationLayer

def read : Reader ValidationLayer := readRecord .modelAttributesType fun d =>
  ValidationLayer.mk <$> field d "name" readText
    <*> field d "status" (readTag LayerStatus.ofTag? .enumeration)
    <*> fieldOr d "detail" readText ""

def toDatum (l : ValidationLayer) : Datum :=
  .object [("name", .str l.name), ("status", .str l.status.tag), ("detail", .str l.detail)]

end ValidationLayer

/-- A candidate for an issue with the outcome of its verification. -/
structure Suggestion where
  issueId : Option String
  issueType : Option IssueType
  filePath : Option String
  oldCode : String
  newCode : String
  explanation : String
  confidence : Nat
  changes : List LineChange
  isVerified : Bool
  badge : Badge
  layers : List ValidationLayer
  status : ReviewStatus
  deriving DecidableEq, Repr

/-- The tag of an issue type, or null. -/
def typeDatum (type : Option IssueType) : Datum :=
  .ofOption (type.map IssueType.tag)

namespace Suggestion

def read : Reader Suggestion := readRecord .modelAttributesType fun d =>
  Suggestion.mk <$> fieldOr d "issue_id" (readOptional readText) none
    <*> fieldOr d "issue_type" (readOptional (readTag IssueType.ofTag? .enumeration)) none
    <*> fieldOr d "file_path" (readOptional readText) none
    <*> field d "original_code" readText
    <*> field d "refactored_code" readText
    <*> fieldOr d "explanation" readText ""
    <*> field d "confidence" (readNat 0 (some 100))
    <*> fieldOr d "changes" (readList LineChange.read) []
    <*> field d "is_verified" readBool
    <*> field d "verification_badge" (readTag Badge.ofTag? .enumeration)
    <*> fieldOr d "validation_layers" (readList ValidationLayer.read) []
    <*> fieldOr d "status" (readTag ReviewStatus.ofTag? .enumeration) .pending

/-- The members of the record. -/
def recordMembers (s : Suggestion) : List (String × Datum) :=
  [("issue_id", .ofOption s.issueId), ("issue_type", typeDatum s.issueType),
    ("file_path", .ofOption s.filePath), ("original_code", .str s.oldCode),
    ("refactored_code", .str s.newCode), ("explanation", .str s.explanation),
    ("confidence", .ofNat s.confidence), ("changes", .list (s.changes.map LineChange.toDatum)),
    ("is_verified", .bool s.isVerified), ("verification_badge", .str s.badge.tag),
    ("validation_layers", .list (s.layers.map ValidationLayer.toDatum)),
    ("status", .str s.status.tag)]

def toDatum (s : Suggestion) : Datum :=
  .object s.recordMembers

/-- The suggestion after a review step. -/
def withStatus (s : Suggestion) (new : ReviewStatus) : Except TransitionError Suggestion :=
  (ReviewStatus.move "suggestion status" s.status new).map fun status => { s with status }

/-- The steps of the verification that failed. -/
def failedLayers (s : Suggestion) : List ValidationLayer :=
  s.layers.filter fun l => l.status == .fail

end Suggestion

/-- What is to be verified. -/
structure VerificationRequest where
  oldCode : String
  newCode : String
  language : String
  filePath : String
  issueId : Option String
  issueType : Option IssueType
  explanation : String
  confidence : Option Nat
  deriving DecidableEq, Repr

namespace VerificationRequest

def read : Reader VerificationRequest := readRecord .modelAttributesType fun d =>
  VerificationRequest.mk <$> field d "original_code" readText
    <*> field d "refactored_code" readText
    <*> field d "language" readText
    <*> fieldOr d "file_path" readText "<suggestion>"
    <*> fieldOr d "issue_id" (readOptional readText) none
    <*> fieldOr d "issue_type" (readOptional (readTag IssueType.ofTag? .enumeration)) none
    <*> fieldOr d "explanation" readText ""
    <*> fieldOr d "confidence" (readOptional (readNat 0 (some 100))) none

def toDatum (r : VerificationRequest) : Datum :=
  .object [("original_code", .str r.oldCode), ("refactored_code", .str r.newCode),
    ("language", .str r.language), ("file_path", .str r.filePath),
    ("issue_id", .ofOption r.issueId), ("issue_type", typeDatum r.issueType),
    ("explanation", .str r.explanation),
    ("confidence", match r.confidence with | some n => .ofNat n | none => .null)]

end VerificationRequest

end CodeHealth
