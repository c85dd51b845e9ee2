import CodeHealth.Issue.Record

/-!
# Duplicate groups

Records of blocks of code that duplicate one another.
-/

namespace CodeHealth

open Schema

/-- A range of lines in a file. -/
structure CodeLocation where
  path : String
  lineStart : Int
  lineEnd : Int
  deriving DecidableEq, Repr

namespace CodeLocation

def read : Reader CodeLocation := readRecord .modelType fun d =>
  CodeLocation.mk <$> field d "path" readText <*> field d "line_start" readInt
    <*> field d "line_end" readInt

def toDatum (l : CodeLocation) : Datum :=
  .object [("path", .str l.path), ("line_start", .int l.lineStart), ("line_end", .int l.lineEnd)]

end CodeLocation

/-- Issues of duplicated code that share an identifier, each with its location. -/
structure DuplicateGroup where
  id : String
  matchType : MatchType
  similarity : Rat
  severity : Severity
  issueIds : List String
  locations : List CodeLocation
  deriving DecidableEq, Repr

namespace DuplicateGroup

def size (g : DuplicateGroup) : Nat :=
  g.issueIds.length

/-- A group has at least two members, and as many locations as members. -/
def isConsistent (g : DuplicateGroup) : Bool :=
  2 ≤ g.issueIds.length && g.issueIds.length == g.locations.length

def read : Reader DuplicateGroup := readRecord .modelAttributesType fun d =>
  (DuplicateGroup.mk <$> field d "id" readText
    <*> field d "match_type" (readTag MatchType.ofTag? .literal)
    <*> field d "similarity" readFraction
    <*> field d "severity" (readTag Severity.ofTag? .enumeration)
    <*> field d "issue_ids" (readList readText)
    <*> field d "locations" (readList CodeLocation.read)).require isConsistent .inconsistent

/-- The members of the record. -/
def recordMembers (g : DuplicateGroup) : List (String × Datum) :=
  [("id", .str g.id), ("match_type", .str g.matchType.tag), ("similarity", .float g.similarity),
    ("severity", .str g.severity.tag), ("issue_ids", .ofStrings g.issueIds),
    ("locations", .list (g.locations.map CodeLocation.toDatum))]

def toDatum (g : DuplicateGroup) : Datum :=
  .object g.recordMembers

end DuplicateGroup

end CodeHealth
