import CodeHealth.Number.Rounding
import CodeHealth.Text.Blank
import CodeHealth.Text.Digit

/-!
# Number literals

Reading a text as an integer with an optional base mark, or as a decimal number. The digits of
every script count as digits.
-/

namespace CodeHealth.Number

/-- The value of a decimal literal. -/
inductive Reading where
  | finite (value : Rat)
  | infinite (negative : Bool)
  | undefined
  deriving DecidableEq, Repr

namespace Reading

/-- The same value with the other sign. -/
def neg : Reading → Reading
  | .finite q => .finite (-q)
  | .infinite negative => .infinite !negative
  | .undefined => .undefined

/-- Whether a value is below another. The undefined value is below none and above none. -/
def lt : Reading → Reading → Bool
  | .finite p, .finite q => p < q
  | .infinite negative, .finite _ => negative
  | .finite _, .infinite negative => !negative
  | .infinite first, .infinite second => first && !second
  | _, _ => false

/-- Whether a value is at most another. The undefined value compares with none. -/
def le : Reading → Reading → Bool
  | .finite p, .finite q => p ≤ q
  | .infinite negative, .finite _ => negative
  | .finite _, .infinite negative => !negative
  | .infinite first, .infinite second => first || !second
  | _, _ => false

end Reading

/-- Writes the digits of other scripts as ASCII digits, other blanks as spaces, and every other
character beyond ASCII as a question mark. -/
def plainChar (c : Char) : Char :=
  if c.toNat < 127 then c
  else if Text.isBlank c then ' '
  else
    match Text.digitValue? c with
    | some d => Char.ofNat (48 + d)
    | none => '?'

private def isMargin (c : Char) : Bool :=
  c == ' ' || (9 ≤ c.toNat && c.toNat ≤ 13)

/-- The plain characters of a literal without the blanks around it. -/
def plainForm (cs : List Char) : List Char :=
  Text.dropEndWhile isMargin ((cs.map plainChar).dropWhile isMargin)

/-- Splits off a sign: whether it is a minus, and the rest. -/
def splitSign : List Char → Bool × List Char
  | '-' :: cs => (true, cs)
  | '+' :: cs => (false, cs)
  | cs => (false, cs)

def digitOf (c : Char) : Nat :=
  if c.isDigit then c.toNat - 48
  else if c.isAlpha then c.toLower.toNat - 87
  else 36

/-- The value of a non-empty run of digits below `base`. -/
def readDigits? (base : Nat) (cs : List Char) : Option Nat :=
  if cs.isEmpty || cs.any (fun c => base ≤ digitOf c) then none
  else some (cs.foldl (fun n c => n * base + digitOf c) 0)

/-- Splits off a minus sign: whether it is there, and the rest. -/
def splitMinus : List Char → Bool × List Char
  | '-' :: cs => (true, cs)
  | cs => (false, cs)

/-- The value of decimal digits that are written without needless zeros in front. -/
def readPlainDigits? : List Char → Option Nat
  | '0' :: _ :: _ => none
  | cs => if cs.all Char.isDigit then readDigits? 10 cs else none

/-- The value of unsigned digits after an optional base mark. A zero at the front of a decimal
integer is allowed only if all digits are zero. -/
def readBased? : List Char → Option Nat
  | '0' :: mark :: cs =>
    if mark == 'x' || mark == 'X' then readDigits? 16 cs
    else if mark == 'o' || mark == 'O' then readDigits? 8 cs
    else if mark == 'b' || mark == 'B' then readDigits? 2 cs
    else
      match readDigits? 10 (mark :: cs) with
      | some 0 => some 0
      | _ => none
  | cs => readDigits? 10 cs

/-- Reads an integer literal. -/
def readInteger? (cs : List Char) : Option Int :=
  let (negative, digits) := splitSign (plainForm cs)
  (readBased? digits).map fun n => if negative then -(n : Int) else n

/-- The number `digits * 10 ^ exponent`, rounded to 53 bits; `count` is the number of digits. A
magnitude beyond every finite one is infinite. -/
def scaled (digits : Nat) (count : Nat) (exponent : Int) : Reading :=
  if digits == 0 then .finite 0
  else if 400 < exponent + count then .infinite false
  else if exponent + count < -400 then .finite 0
  else
    match finite? (digits * power 10 exponent) with
    | some q => .finite q
    | none => .infinite false

/-- Reads the exponent after its mark. -/
def readExponent? (cs : List Char) : Option Int :=
  let (negative, digits) := splitSign cs
  (readDigits? 10 digits).map fun n => if negative then -(n : Int) else n

/-- Reads unsigned decimal digits with an optional point and exponent. -/
def readUnsigned? (cs : List Char) : Option Reading :=
  let whole := cs.takeWhile Char.isDigit
  let rest := cs.drop whole.length
  let (places, rest) :=
    match rest with
    | '.' :: tail => (tail.takeWhile Char.isDigit, tail.dropWhile Char.isDigit)
    | _ => ([], rest)
  let digits := whole ++ places
  let exponent? :=
    match rest with
    | [] => some 0
    | mark :: tail => if mark == 'e' || mark == 'E' then readExponent? tail else none
  match readDigits? 10 digits, exponent? with
  | some n, some e => some (scaled n digits.length (e - places.length))
  | _, _ => none

/-- Reads a decimal literal, `inf`, `infinity` or `nan` in any case. -/
def readDecimal? (cs : List Char) : Option Reading :=
  let (negative, body) := splitSign (plainForm cs)
  let word := String.ofList (body.map Char.toLower)
  if word == "inf" || word == "infinity" then some (.infinite negative)
  else if word == "nan" then some .undefined
  else (readUnsigned? body).map fun r => if negative then r.neg else r

end CodeHealth.Number
