import CodeHealth.Datum.Printer
import CodeHealth.Issue.Basic
import CodeHealth.Schema.Reader

/-!
# Issue records

Issues and their metadata as records: reading with all faults, and writing with all fields.
-/

namespace CodeHealth

open Schema

/-- An object of decimal numbers. -/
def numbersDatum (numbers : List (String × Rat)) : Datum :=
  .object (numbers.map fun n => (n.1, .float n.2))

namespace Metadata

/-- The record of some metadata, its kind first. -/
def toDatum : Metadata → Datum
  | .complexity metric value threshold extra =>
    .object [("kind", .str "complexity"), ("metric", .str metric), ("value", .float value),
      ("threshold", .float threshold), ("extra", numbersDatum extra)]
  | .duplicate matchType similarity groupSize lineCount tokenCount =>
    .object [("kind", .str "duplicate"), ("match_type", .str matchType.tag),
      ("similarity", .float similarity), ("group_size", .int groupSize),
      ("line_count", .int lineCount), ("token_count", .int tokenCount)]
  | .security ruleId maskedValue credentialDerived =>
    .object [("kind", .str "security"), ("rule_id", .str ruleId),
      ("masked_value", .ofOption maskedValue), ("credential_derived", .bool credentialDerived)]
  | .generic values =>
    .object [("kind", .str "generic"), ("values", numbersDatum values)]

/-- The compact text of the record. -/
def text (m : Metadata) : String :=
  m.toDatum.print

/-- Reads the fields of one variant. -/
def readVariant (d : Datum) : Family → Checked Metadata
  | .complexity =>
    Metadata.complexity <$> field d "metric" readText <*> field d "value" readFloat
      <*> field d "threshold" readFloat <*> fieldOr d "extra" (readMap readFloat) []
  | .duplicate =>
    Metadata.duplicate <$> field d "match_type" (readTag MatchType.ofTag? .literal)
      <*> field d "similarity" readFraction <*> field d "group_size" (readWithin (some 2) none)
      <*> field d "line_count" readInt <*> field d "token_count" readInt
  | .security =>
    Metadata.security <$> field d "rule_id" readText
      <*> fieldOr d "masked_value" (readOptional readText) none
      <*> fieldOr d "credential_derived" readBool false
  | .generic =>
    Metadata.generic <$> fieldOr d "values" (readMap readFloat) []

/-- Reads metadata of the variant that its `kind` tells. -/
def read : Reader Metadata := readRecord .modelAttributesType fun d =>
  match d.get? "kind" with
  | none => .fault .unionTagMissing
  | some (.str tag) =>
    match Family.ofTag? tag with
    | some family => (readVariant d family).under tag
    | none => .fault .unionTagInvalid
  | some _ => .fault .unionTagInvalid

end Metadata

namespace Issue

/-- Reads the fields of an issue and checks what holds between them. -/
def read : Reader Issue := readRecord .modelAttributesType fun d =>
  (Issue.mk <$> fieldOr d "id" (readOptional readText) none
    <*> field d "type" (readTag IssueType.ofTag? .enumeration)
    <*> field d "severity" (readTag Severity.ofTag? .enumeration)
    <*> field d "confidence" (readNat 0 (some 100))
    <*> field d "file_path" readText
    <*> field d "line_start" (readNat 1 none)
    <*> field d "line_end" (readNat 1 none)
    <*> fieldOr d "function_name" (readOptional readText) none
    <*> fieldOr d "class_name" (readOptional readText) none
    <*> field d "description" readText
    <*> fieldOr d "recommendation" readText ""
    <*> fieldOr d "code_excerpt" readText ""
    <*> fieldOr d "duplicate_group_id" (readOptional readText) none
    <*> fieldOr d "metadata" Metadata.read (.generic [])
    <*> fieldOr d "status" (readTag ReviewStatus.ofTag? .enumeration) .pending).require
      isConsistent .inconsistent

/-- The record of an issue. -/
def toDatum (issue : Issue) : Datum :=
  .object [("id", .ofOption issue.id), ("type", .str issue.type.tag),
    ("severity", .str issue.severity.tag), ("confidence", .ofNat issue.confidence),
    ("file_path", .str issue.filePath), ("line_start", .ofNat issue.lineStart),
    ("line_end", .ofNat issue.lineEnd), ("function_name", .ofOption issue.functionName),
    ("class_name", .ofOption issue.className), ("description", .str issue.description),
    ("recommendation", .str issue.recommendation), ("code_excerpt", .str issue.codeExcerpt),
    ("duplicate_group_id", .ofOption issue.duplicateGroupId),
    ("metadata", issue.metadata.toDatum), ("status", .str issue.status.tag)]

/-- What a generator is told about an issue. -/
def context (issue : Issue) : Datum :=
  .object [("file_path", .str issue.filePath), ("function_name", .ofOption issue.functionName),
    ("class_name", .ofOption issue.className), ("line_start", .ofNat issue.lineStart),
    ("line_end", .ofNat issue.lineEnd), ("severity", .str issue.severity.tag),
    ("description", .str issue.description), ("recommendation", .str issue.recommendation),
    ("metadata", issue.metadata.toDatum)]

end Issue

end CodeHealth
