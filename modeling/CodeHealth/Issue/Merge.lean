import CodeHealth.Digest.NameId
import CodeHealth.Issue.Record

/-!
# Merging issues

Of all findings with one key the most trusted is kept. The rest get identifiers that follow from
what they are and where they stand, and a fixed order.
-/

namespace CodeHealth

namespace Issue

/-- The namespace of issue identifiers. -/
def idSpace : Nat := 0x6f1d3c529a5e4b8e8d431f0c2e7a9b11

/-- The name that an identifier is derived from. -/
def idName (projectId : String) (key : Key) : String :=
  String.intercalate "|"
    [projectId, key.type.tag, key.filePath, toString key.lineStart, toString key.lineEnd]

/-- The identifier of an issue in a project. -/
def stableId (projectId : String) (issue : Issue) : String :=
  Digest.nameId idSpace (idName projectId issue.key)

/-- The issue with its identifier. -/
def withStableId (projectId : String) (issue : Issue) : Issue :=
  { issue with id := some (issue.stableId projectId) }

/-- What decides between two findings with one key, the first difference first. -/
structure Preference where
  confidence : Nat
  severity : Nat
  description : String
  metadata : String
  deriving DecidableEq

def preference (issue : Issue) : Preference :=
  ⟨issue.confidence, issue.severity.rank, issue.description, issue.metadata.text⟩

/-- Whether the second preference is stronger than the first. -/
def Preference.lt (p q : Preference) : Bool :=
  if p.confidence != q.confidence then p.confidence < q.confidence
  else if p.severity != q.severity then p.severity < q.severity
  else if p.description != q.description then p.description < q.description
  else p.metadata < q.metadata

/-- The place of an issue in the order of a report. -/
def comesBefore (a b : Issue) : Bool :=
  if a.filePath != b.filePath then a.filePath < b.filePath
  else if a.lineStart != b.lineStart then a.lineStart < b.lineStart
  else if a.lineEnd != b.lineEnd then a.lineEnd < b.lineEnd
  else a.type.tag ≤ b.type.tag

end Issue

/-- Adds a finding: in place of the one with its key if it is more trusted, or at the end. -/
def keepBest (best : List Issue) (issue : Issue) : List Issue :=
  if best.any fun i => i.key == issue.key then
    best.map fun i =>
      if i.key == issue.key && i.preference.lt issue.preference then issue else i
  else best ++ [issue]

/-- One issue for each key, with identifiers and in the order of reports. -/
def mergeIssues (projectId : String) (batches : List (List Issue)) : List Issue :=
  ((batches.flatten.foldl keepBest []).map (Issue.withStableId projectId)).mergeSort
    Issue.comesBefore

end CodeHealth
