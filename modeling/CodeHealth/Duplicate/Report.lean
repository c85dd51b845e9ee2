import CodeHealth.Duplicate.Group
import CodeHealth.Duplicate.Match
import CodeHealth.Issue.Merge

/-!
# Duplicate reports

One issue for each block of a group, and one record for each group.
-/

namespace CodeHealth.Duplicates

/-- The namespace of group identifiers. -/
def groupSpace : Nat := 0xb8a0f7e43c1d4e59a6b27d9e0c4f1a23

/-- The severity of a group by its longest block and its number of members. -/
def groupSeverity (lineCount members : Int) : Severity :=
  if 50 ≤ lineCount || 5 ≤ members then .critical
  else if 30 ≤ lineCount || 3 ≤ members then .high
  else if 15 ≤ lineCount then .medium
  else .low

/-- A block of a group with its strongest match. -/
structure Member where
  block : CodeBlock
  best : Match

/-- The name that a group's identifier is derived from. -/
def groupName (projectId : String) (members : List Member) : String :=
  String.intercalate "|"
    (projectId :: members.map fun m =>
      s!"{m.block.path}:{m.block.startLine}-{m.block.endLine}")

def groupId (projectId : String) (members : List Member) : String :=
  Digest.nameId groupSpace (groupName projectId members)

def severityOf (members : List Member) : Severity :=
  groupSeverity ((members.map fun m => m.block.lineCount).foldl max 0 : Nat) members.length

/-- The issue of one block of a group. -/
def memberIssue (projectId : String) (members : List Member) (m : Member) : Issue :=
  let others := (members.filter fun o => o.block.index != m.block.index).map fun o =>
    o.block.location
  Issue.withStableId projectId
    { id := none
      type := .duplicateCode
      severity := severityOf members
      confidence := m.best.confidence.toNat
      filePath := m.block.path
      lineStart := m.block.startLine
      lineEnd := m.block.endLine
      functionName := some m.block.functionName
      className := m.block.className
      description :=
        s!"'{m.block.functionName}' duplicates code ({m.best.type.tag} match) at " ++
          String.intercalate ", " others
      recommendation := IssueType.duplicateCode.recommendation
      codeExcerpt := m.block.excerpt
      duplicateGroupId := some (groupId projectId members)
      metadata :=
        .duplicate m.best.type m.best.similarity members.length m.block.lineCount
          m.block.tokens.length
      status := .pending }

/-- The first of the strongest types among some members. -/
def strongestType (members : List Member) : MatchType :=
  members.foldl (fun best m => if best.rank < m.best.type.rank then m.best.type else best)
    .semantic

/-- The least similarity among some members. -/
def leastSimilarity (members : List Member) : Rat :=
  members.foldl (fun least m => Number.smaller least m.best.similarity)
    ((members.head?.map fun m => m.best.similarity).getD 1)

/-- A group of members with their issues. -/
structure GroupReport where
  issues : List Issue
  group : DuplicateGroup

def reportGroup (projectId : String) (members : List Member) : GroupReport :=
  let issues := members.map (memberIssue projectId members)
  { issues := issues
    group :=
      { id := groupId projectId members
        matchType := strongestType members
        similarity := leastSimilarity members
        severity := severityOf members
        issueIds := issues.map fun i => i.id.getD ""
        locations := members.map fun m => ⟨m.block.path, m.block.startLine, m.block.endLine⟩ } }

/-- The members of a group. -/
def membersOf (blocks : List CodeBlock) (s : Linking) (indices : List Nat) :
    Except DuplicateError (List Member) :=
  indices.mapM fun i =>
    match blocks[i]?, s.best? i with
    | some block, some best => .ok ⟨block, best⟩
    | _, _ => .error (.blockWithoutMatch i)

/-- What was found in a project. -/
structure Result where
  issues : List Issue
  groups : List DuplicateGroup
  blocksConsidered : Nat
  budgetExhausted : Bool

/-- The order of duplicate issues: by file, then by lines. -/
def issueBefore (a b : Issue) : Bool :=
  if a.filePath != b.filePath then a.filePath < b.filePath
  else if a.lineStart != b.lineStart then a.lineStart < b.lineStart
  else a.lineEnd ≤ b.lineEnd

/-- The order of groups: by the file and the first line of the first location. -/
def groupBefore (a b : DuplicateGroup) : Bool :=
  match a.locations.head?, b.locations.head? with
  | some x, some y => if x.path != y.path then x.path < y.path else x.lineStart ≤ y.lineStart
  | _, _ => true

/-- The report of linked blocks. -/
def report (projectId : String) (blocks : List CodeBlock) (s : Linking) :
    Except DuplicateError Result := do
  let large := s.groups.groups.1.filter fun g => 2 ≤ g.length
  let members ← large.mapM (membersOf blocks s)
  let reports := members.map (reportGroup projectId)
  return {
    issues := (reports.flatMap GroupReport.issues).mergeSort issueBefore
    groups := (reports.map GroupReport.group).mergeSort groupBefore
    blocksConsidered := blocks.length
    budgetExhausted := s.exhausted }

/-- Finds the duplicates among the functions of some trees. -/
def detect (options : Options) (projectId : String) (asts : List SourceTree) :
    Except DuplicateError Result := do
  let blocks ← extractBlocks options asts
  let linked ← linkAll blocks options
  report projectId blocks linked

end CodeHealth.Duplicates
