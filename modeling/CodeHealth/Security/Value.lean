import CodeHealth.Security.Rule
import CodeHealth.Text.Case
import CodeHealth.Text.Substring

/-!
# Values of a finding

Quotes around a literal, placeholders that stand for a secret, and masks that hide one.
-/

namespace CodeHealth.Security

/-- Hides all but the first and the last three characters. -/
def maskValue (value : String) : String :=
  let cs := value.toList
  if cs.length ≤ 6 then String.ofList (List.replicate cs.length '*')
  else
    String.ofList (cs.take 3 ++ List.replicate (cs.length - 6) '*' ++ cs.drop (cs.length - 3))

/-- The parts of a text that show that it only stands for a secret. -/
def placeholderMarkers : List String :=
  ["example", "sample", "dummy", "placeholder", "changeme", "change-me", "change_me",
    "your_", "your-", "xxx", "todo", "fake", "test", "<", ">", "$\x7b", "\x7b\x7b", "%s", "%(",
    "process.env", "os.environ", "getenv"]

/-- Whether all characters of a text are one and the same. -/
def isUniform (cs : List Char) : Bool :=
  match cs with
  | [] => true
  | c :: rest => rest.all (· == c)

/-- A text that stands for a secret but is none. -/
def isPlaceholder (value : String) : Bool :=
  placeholderMarkers.any (Text.contains (Text.lower value)) || isUniform value.toList

/-- The letters that can stand in front of a quote. -/
def literalMarks : List String :=
  ["f", "b", "r", "u", "rb", "br", "fr", "rf"]

/-- Drops the letters in front of a quote. -/
def dropMark (cs : List Char) : List Char :=
  let marked (mark : String) : Bool :=
    mark.toList.isPrefixOf (Text.lowerAfter [] cs) &&
      match cs.drop mark.length with
      | c :: _ => c == '\'' || c == '"'
      | [] => false
  match literalMarks.find? marked with
  | some mark => cs.drop mark.length
  | none => cs

/-- Drops one pair of equal quotes around a text. -/
def dropQuotes (cs : List Char) : List Char :=
  match cs with
  | first :: second :: rest =>
    if "'\"\x60".toList.contains first && (second :: rest).getLast? == some first then
      (second :: rest).dropLast
    else cs
  | _ => cs

/-- The text of a literal without its quotes and the letters in front of them. -/
def stripQuotes (s : String) : String :=
  String.ofList (dropQuotes (dropMark (Text.trim s.toList)))

/-- The line with a value replaced by its mask. -/
def redact (line : String) (value masked : Option String) : String :=
  match value, masked with
  | some v, some m => if v != "" && m != "" && v != m then Text.replace line v m else line
  | _, _ => line

def isLogCallee (callee : String) : Bool :=
  logCalleePattern.matchesStart callee

def isSensitiveName (name : String) : Bool :=
  sensitiveNamePattern.occursIn name

end CodeHealth.Security
