import CodeHealth.Pattern.Basic
import CodeHealth.Tree.Syntax

/-!
# Configuration files

A configuration text is read line by line. Each line that is not blank is a comment, a section, a
pair of a key and a value, or a plain line.
-/

namespace CodeHealth.Config

open Pattern

/-- A line that begins with a comment mark. -/
def commentPattern : Pattern :=
  .atStart ++ star blank ++ oneOf [lit "#", lit ";", lit "//"]

/-- A line that holds a name in square brackets. -/
def sectionPattern : Pattern :=
  .atStart ++ star blank ++ lit "[" ++ plus (noneOf "]") ++ lit "]" ++ star blank ++ .atEnd

/-- The front of a line that holds a key and a value, up to the value. An `export` may come before
the key. -/
def pairPattern : Pattern :=
  .atStart ++ star blank ++ opt (lit "export" ++ plus blank) ++ opt (among "\"'") ++
    .capture "key" (.char (fun c => c.isAlpha || c == '_') ++ star (wordOr ".-")) ++
    opt (among "\"'") ++ star blank ++ among ":=" ++ star blank

/-- A value without the blanks and the one comma behind it. -/
def trimValue (cs : List Char) : List Char :=
  let trimmed := Text.trimEnd cs
  if trimmed.getLast? == some ',' then Text.trimEnd trimmed.dropLast else trimmed

/-- What a line holds: its kind, its name if it has one, and its text. -/
structure Entry where
  kind : String
  name : Option String
  text : String

private def dropEnds (s : String) : String :=
  String.ofList ((s.toList.drop 1).dropLast)

/-- Reads a line that is not blank. -/
def readLine (line : String) : Entry :=
  let cs := line.toList
  if (commentPattern.matchStart? cs).isSome then ⟨"comment", none, Text.strip line⟩
  else if (sectionPattern.matchStart? cs).isSome then
    ⟨"section", some (dropEnds (Text.strip line)), Text.strip line⟩
  else
    match pairPattern.matchStart? cs with
    | some p =>
      let key := (p.captured? "key").getD []
      ⟨"pair", some (String.ofList key), String.ofList (trimValue p.rest)⟩
    | none => ⟨"line", none, Text.strip line⟩

/-- The node of a line that starts at a byte offset. -/
def entryNode (index offset : Nat) (line : String) : SyntaxNode :=
  let entry := readLine line
  { kind := entry.kind
    startLine := index
    startColumn := 0
    endLine := index
    endColumn := line.utf8ByteSize
    startByte := offset
    endByte := offset + line.utf8ByteSize
    named := true
    field := none
    name := entry.name
    text := some entry.text
    isError := false }

/-- The lines of a text; a line feed at the end starts no further line. -/
def rawLines (text : String) : List String :=
  let lines := Text.splitOnChar '\n' text
  if lines.getLast? == some "" then lines.dropLast else lines

/-- The nodes of the lines from a line number and a byte offset on. -/
def entriesFrom (index offset : Nat) : List String → List (Tree SyntaxNode)
  | [] => []
  | raw :: rest =>
    let line := String.ofList (Text.dropReturns raw.toList)
    let later := entriesFrom (index + 1) (offset + raw.utf8ByteSize + 1) rest
    if Text.strip line == "" then later
    else .node (entryNode index offset line) [] :: later

/-- The bytes of some lines, each with a line feed. -/
def byteSize (lines : List String) : Nat :=
  lines.foldr (fun raw bytes => raw.utf8ByteSize + 1 + bytes) 0

/-- The document of a configuration text. -/
def document (text : String) : Tree SyntaxNode :=
  let lines := rawLines text
  .node
    { kind := "document"
      startLine := 1
      startColumn := 0
      endLine := max 1 lines.length
      endColumn := 0
      startByte := 0
      endByte := byteSize lines
      named := true
      field := none
      name := none
      text := none
      isError := false }
    (entriesFrom 1 0 lines)

end CodeHealth.Config
