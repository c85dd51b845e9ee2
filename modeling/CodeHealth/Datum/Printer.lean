import CodeHealth.Datum.Basic
import CodeHealth.Number.Shortest

/-!
# Compact text of a value

No spaces, members in their order, the shortest decimals, and escapes for quotes, backslashes and
control characters only.
-/

namespace CodeHealth.Datum

def hexDigit (n : Nat) : Char :=
  Nat.digitChar (n % 16)

/-- A character inside quotes. -/
def escapeChar (c : Char) : List Char :=
  if c == '"' then ['\\', '"']
  else if c == '\\' then ['\\', '\\']
  else if c == '\n' then ['\\', 'n']
  else if c == '\r' then ['\\', 'r']
  else if c == '\t' then ['\\', 't']
  else if c.toNat == 8 then ['\\', 'b']
  else if c.toNat == 12 then ['\\', 'f']
  else if c.toNat < 32 then ['\\', 'u', '0', '0', hexDigit (c.toNat / 16), hexDigit c.toNat]
  else [c]

/-- A text in quotes. -/
def quote (s : String) : String :=
  String.ofList ('"' :: s.toList.flatMap escapeChar ++ ['"'])

mutual

/-- The compact text of a value. -/
def print : Datum → String
  | .null => "null"
  | .bool b => if b then "true" else "false"
  | .int n => toString n
  | .float q => Number.text q
  | .str s => quote s
  | .list items => "[" ++ String.intercalate "," (printItems items) ++ "]"
  | .object members => "\x7b" ++ String.intercalate "," (printMembers members) ++ "\x7d"

/-- The texts of some values. -/
def printItems : List Datum → List String
  | [] => []
  | d :: ds => print d :: printItems ds

/-- The texts of some members, each name in front of its value. -/
def printMembers : List (String × Datum) → List String
  | [] => []
  | (name, d) :: ms => (quote name ++ ":" ++ print d) :: printMembers ms

end

end CodeHealth.Datum
