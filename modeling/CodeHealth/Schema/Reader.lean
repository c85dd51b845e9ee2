import CodeHealth.Datum.Basic
import CodeHealth.Number.Literal
import CodeHealth.Schema.Checked
import CodeHealth.Text.Case

/-!
# Reading fields

How a value is read as a field. Numbers and truth values are read leniently: from one another where
nothing is lost, and from their texts. Texts are read from texts only.
-/

namespace CodeHealth.Schema

/-- Reads a value as a field. -/
abbrev Reader (α : Type) := Datum → Checked α

/-- A blank around a number's text; the separators among the control characters do not count. -/
private def isNumberMargin (c : Char) : Bool :=
  Text.isBlank c && !(0x1c ≤ c.toNat && c.toNat ≤ 0x1f)

private def trimMargin (cs : List Char) : List Char :=
  Text.dropEndWhile isNumberMargin (cs.dropWhile isNumberMargin)

/-- Removes single underscores between the characters of a number. -/
def dropUnderscores? : List Char → Option (List Char)
  | [] => some []
  | ['_'] => none
  | '_' :: _ => none
  | c :: '_' :: d :: rest =>
    if d == '_' then none else (dropUnderscores? (d :: rest)).map (c :: ·)
  | c :: rest => (dropUnderscores? rest).map (c :: ·)

/-- Drops a plus sign, which no minus sign may follow. -/
private def dropPlus? : List Char → Option (List Char)
  | '+' :: '-' :: _ => none
  | '+' :: cs => some cs
  | cs => some cs

/-- Drops the zeros in front of a number, with the underscores among them, and keeps what stands
right before a point or at the end. -/
private def dropZeros? (cs : List Char) : Option (List Char) :=
  match cs with
  | '0' :: tail =>
    let zeros := tail.takeWhile fun c => c == '0' || c == '_'
    match tail.drop zeros.length with
    | [] => some [zeros.getLastD '0']
    | '.' :: places => some (zeros.getLastD '0' :: '.' :: places)
    | c :: rest => if c.isDigit then some (c :: rest) else none
  | c :: _ => if c.isDigit || c == '-' then some cs else none
  | [] => none

/-- Drops a point that only zeros follow. -/
private def dropZeroPlaces (cs : List Char) : List Char :=
  let whole := cs.takeWhile (· != '.')
  if (cs.drop (whole.length + 1)).all (· == '0') then whole else cs

/-- The integer that a text stands for. It may have any number of digits: the limit that a reader
may set on them, such as 4300, is not part of the model. -/
def integerOfText? (s : String) : Option Int := do
  let unsigned ← dropPlus? (trimMargin s.toList)
  let significant ← dropZeros? unsigned
  let cs := dropZeroPlaces significant
  let (negative, digits) := Number.splitMinus ((dropUnderscores? cs).getD cs)
  let n ← Number.readPlainDigits? digits
  return if negative then -(n : Int) else n

/-- The value of a decimal without blanks. -/
def decimalOf? (cs : List Char) : Option Number.Reading :=
  if cs.all fun c => c.toNat < 127 && !Text.isBlank c then Number.readDecimal? cs else none

/-- The value of a decimal. It may have blanks around it or underscores inside, but not both. -/
def decimalOfText? (s : String) : Option Number.Reading :=
  match decimalOf? (trimMargin s.toList) with
  | some r => some r
  | none => (dropUnderscores? s.toList).bind decimalOf?

/-- Reads an integer. -/
def readInt : Reader Int
  | .int n => .valid n
  | .bool b => .valid (if b then 1 else 0)
  | .float q => if q.den == 1 then .valid q.num else .fault .intFromFloat
  | .str s =>
    match integerOfText? s with
    | some n => .valid n
    | none => .fault .intParsing
  | _ => .fault .intType

/-- Reads a decimal, which may be infinite or undefined. An integer beyond every finite 53-bit
number is none. -/
def readDecimal : Reader Number.Reading
  | .float q => .valid (.finite q)
  | .int n =>
    match Number.finite? n with
    | some q => .valid (.finite q)
    | none => .fault .floatType
  | .bool b => .valid (.finite (if b then 1 else 0))
  | .str s =>
    match decimalOfText? s with
    | some r => .valid r
    | none => .fault .floatParsing
  | _ => .fault .floatType

/-- Reads a decimal from zero to one; the undefined value passes too. -/
def readShare : Reader Number.Reading := fun d =>
  ((readDecimal d).require (fun r => !r.lt (.finite 0)) .tooSmall).require
    (fun r => !(Number.Reading.finite 1).lt r) .tooLarge

/-- Reads a finite decimal. -/
def readFloat : Reader Rat := fun d =>
  match readDecimal d with
  | .valid (.finite q) => .valid q
  | .valid _ => .fault .floatParsing
  | .faulty faults => .faulty faults

/-- Reads a truth value. -/
def readBool : Reader Bool
  | .bool b => .valid b
  | .int n => if n == 0 then .valid false else if n == 1 then .valid true else .fault .boolParsing
  | .float q =>
    if q == 0 then .valid false
    else if q == 1 then .valid true
    else if q.den == 1 then .fault .boolParsing
    else .fault .boolType
  | .str s =>
    let word := String.ofList (s.toList.map Char.toLower)
    if ["1", "t", "true", "on", "y", "yes"].contains word then .valid true
    else if ["0", "f", "false", "off", "n", "no"].contains word then .valid false
    else .fault .boolParsing
  | _ => .fault .boolType

/-- Reads a text. -/
def readText : Reader String
  | .str s => .valid s
  | _ => .fault .stringType

/-- Reads one of some tagged values. -/
def readTag (ofTag? : String → Option α) (kind : FaultKind) : Reader α
  | .str s =>
    match ofTag? s with
    | some a => .valid a
    | none => .fault kind
  | _ => .fault kind

/-- Reads null as no value. -/
def readOptional (reader : Reader α) : Reader (Option α)
  | .null => .valid none
  | d => (reader d).map some

/-- Reads an integer between bounds, each given if it applies. -/
def readWithin (least most : Option Int) : Reader Int := fun d =>
  ((readInt d).require (fun n => least.all (· ≤ n)) .tooSmall).require
    (fun n => most.all (n ≤ ·)) .tooLarge

/-- Reads a natural number of at least `least`. -/
def readNat (least : Nat) (most : Option Int) : Reader Nat := fun d =>
  (readWithin (some least) most d).map Int.toNat

/-- Reads a decimal number from zero to one. -/
def readFraction : Reader Rat := fun d =>
  ((readFloat d).require (fun q => 0 ≤ q) .tooSmall).require (fun q => q ≤ 1) .tooLarge

/-- Reads the items of a list; anything else has the given fault. -/
def readSequence (kind : FaultKind) (reader : Reader α) : Reader (List α)
  | .list items =>
    .sequence (items.zipIdx.map fun (item, i) => (reader item).under (toString i))
  | _ => .fault kind

/-- Reads the items of a list. -/
def readList (reader : Reader α) : Reader (List α) :=
  readSequence .listType reader

/-- Reads an object whose values are all read alike. -/
def readMap (reader : Reader α) : Reader (List (String × α))
  | .object members =>
    .sequence (members.map fun (name, d) => ((reader d).map fun a => (name, a)).under name)
  | _ => .fault .dictType

/-- Reads a member that has to be there. -/
def field (record : Datum) (name : String) (reader : Reader α) : Checked α :=
  (match record.get? name with
    | some d => reader d
    | none => .fault .missing).under name

/-- Reads a member, with a value for its absence. -/
def fieldOr (record : Datum) (name : String) (reader : Reader α) (absent : α) : Checked α :=
  match record.get? name with
  | some d => (reader d).under name
  | none => .valid absent

/-- Reads an object; anything else has the given fault. -/
def readRecord (kind : FaultKind) (reader : Reader α) : Reader α
  | .object members => reader (.object members)
  | _ => .fault kind

end CodeHealth.Schema
