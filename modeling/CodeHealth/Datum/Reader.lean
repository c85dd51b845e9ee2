import CodeHealth.Datum.Basic
import CodeHealth.Number.Literal

/-!
# Reading values

The text form of a value. Of two members with one name the later value counts, at the place of the
earlier. A number with a point or an exponent is a decimal.
-/

namespace CodeHealth.Datum

def skipSpace (cs : List Char) : List Char :=
  cs.dropWhile fun c => c == ' ' || c == '\n' || c == '\t' || c == '\r'

def readWord (word : String) (value : Datum) (cs : List Char) :
    Option (Datum × List Char) :=
  if word.toList.isPrefixOf cs then some (value, cs.drop word.length) else none

/-- The value of four hexadecimal digits. -/
def readUnit (cs : List Char) : Option (Nat × List Char) :=
  match cs with
  | a :: b :: c :: d :: rest =>
    (Number.readDigits? 16 [a, b, c, d]).map fun n => (n, rest)
  | _ => none

/-- The character of an escape after its backslash. Two surrogates make one character. -/
def readEscape : List Char → Option (Char × List Char)
  | 'n' :: cs => some ('\n', cs)
  | 't' :: cs => some ('\t', cs)
  | 'r' :: cs => some ('\r', cs)
  | 'b' :: cs => some ('\x08', cs)
  | 'f' :: cs => some ('\x0c', cs)
  | 'u' :: cs => do
    let (high, rest) ← readUnit cs
    match rest with
    | '\\' :: 'u' :: more =>
      match readUnit more with
      | some (low, rest') =>
        if 0xd800 ≤ high && high < 0xdc00 && 0xdc00 ≤ low && low < 0xe000 then
          some (Char.ofNat (0x10000 + (high - 0xd800) * 1024 + (low - 0xdc00)), rest')
        else some (if 0xd800 ≤ high && high < 0xe000 then '\ufffd' else Char.ofNat high, rest)
      | none => none
    | _ => some (if 0xd800 ≤ high && high < 0xe000 then '\ufffd' else Char.ofNat high, rest)
  | c :: cs => if c == '"' || c == '\\' || c == '/' then some (c, cs) else none
  | [] => none

/-- Reads the characters up to the closing quote; `done` holds those before, the latest first. -/
def readChars : Nat → List Char → List Char → Option (String × List Char)
  | 0, _, _ => none
  | fuel + 1, done, cs =>
    match cs with
    | [] => none
    | '"' :: rest => some (String.ofList done.reverse, rest)
    | '\\' :: rest =>
      match readEscape rest with
      | some (c, rest') => readChars fuel (c :: done) rest'
      | none => none
    | c :: rest => if c.toNat < 32 then none else readChars fuel (c :: done) rest

/-- A point with the digits after it, if there are digits. -/
def takePlaces : List Char → List Char
  | '.' :: tail =>
    let digits := tail.takeWhile Char.isDigit
    if digits.isEmpty then [] else '.' :: digits
  | _ => []

/-- An exponent with its mark and its sign, if there are digits. -/
def takeExponent : List Char → List Char
  | mark :: tail =>
    if mark == 'e' || mark == 'E' then
      let sign := match tail with | '+' :: _ => ['+'] | '-' :: _ => ['-'] | _ => []
      let digits := (tail.drop sign.length).takeWhile Char.isDigit
      if digits.isEmpty then [] else mark :: sign ++ digits
    else []
  | [] => []

/-- Reads a number. A point or an exponent belongs to it only with digits. -/
def readNumber (cs : List Char) : Option (Datum × List Char) :=
  let (negative, body) := Number.splitMinus cs
  let whole := body.takeWhile Char.isDigit
  let rest := body.drop whole.length
  let places := takePlaces rest
  let rest := rest.drop places.length
  let power := takeExponent rest
  let rest := rest.drop power.length
  match Number.readPlainDigits? whole with
  | none => none
  | some n =>
    if places.isEmpty && power.isEmpty then some (.int (if negative then -(n : Int) else n), rest)
    else
      match Number.readUnsigned? (whole ++ places ++ power) with
      | some (.finite q) => some (.float (if negative then -q else q), rest)
      | _ => none

mutual

/-- Reads one value and the text after it. -/
def readValue : Nat → List Char → Option (Datum × List Char)
  | 0, _ => none
  | fuel + 1, cs =>
    match skipSpace cs with
    | '"' :: rest => (readChars (rest.length + 1) [] rest).map fun (s, rest') => (.str s, rest')
    | '[' :: rest =>
      match skipSpace rest with
      | ']' :: rest' => some (.list [], rest')
      | _ => (readItems fuel rest).map fun (items, rest') => (.list items, rest')
    | '\x7b' :: rest =>
      match skipSpace rest with
      | '\x7d' :: rest' => some (.object [], rest')
      | _ => (readMembers fuel [] rest).map fun (ms, rest') => (.object ms, rest')
    | 't' :: rest => readWord "rue" (.bool true) rest
    | 'f' :: rest => readWord "alse" (.bool false) rest
    | 'n' :: rest => readWord "ull" .null rest
    | other => readNumber other

/-- Reads the values of a list up to its closing bracket. -/
def readItems : Nat → List Char → Option (List Datum × List Char)
  | 0, _ => none
  | fuel + 1, cs =>
    match readValue fuel cs with
    | none => none
    | some (item, rest) =>
      match skipSpace rest with
      | ',' :: rest' => (readItems fuel rest').map fun (items, rest'') => (item :: items, rest'')
      | ']' :: rest' => some ([item], rest')
      | _ => none

/-- Reads the members of an object up to its closing bracket, after those already read. -/
def readMembers : Nat → List (String × Datum) → List Char →
    Option (List (String × Datum) × List Char)
  | 0, _, _ => none
  | fuel + 1, before, cs =>
    match skipSpace cs with
    | '"' :: rest =>
      match readChars (rest.length + 1) [] rest with
      | none => none
      | some (name, rest) =>
        match skipSpace rest with
        | ':' :: rest =>
          match readValue fuel rest with
          | none => none
          | some (value, rest) =>
            let members := setMember before name value
            match skipSpace rest with
            | ',' :: rest => readMembers fuel members rest
            | '\x7d' :: rest => some (members, rest)
            | _ => none
        | _ => none
    | _ => none

end

/-- Reads a text that holds one value. Integers may have any number of digits: the limit that a
reader may set on them, such as 4300, is not part of the model. -/
def read? (s : String) : Option Datum :=
  let cs := s.toList
  match readValue (cs.length + 1) cs with
  | some (d, rest) => if (skipSpace rest).isEmpty then some d else none
  | none => none

end CodeHealth.Datum
