import CodeHealth.Number.Rounding

/-!
# Shortest decimals

The fewest significant digits that read back as a given 53-bit number, and their layout as text.
-/

namespace CodeHealth.Number

/-- A decimal number `digits * 10 ^ exponent`. -/
structure Decimal where
  digits : Nat
  exponent : Int
  deriving DecidableEq, Repr

/-- The exact value of a decimal. -/
def Decimal.value (d : Decimal) : Rat :=
  d.digits * power 10 d.exponent

/-- The exponent `e` with `10 ^ e ≤ q < 10 ^ (e + 1)`, for a `q` of at least `10 ^ (-400)`. -/
def decimalExponent (q : Rat) : Int :=
  if 1 ≤ q then ((Nat.toDigits 10 q.floor.toNat).length : Int) - 1
  else
    match (List.range 400).find? fun (places : Nat) => 1 ≤ q * power 10 places with
    | some places => -(places : Int)
    | none => -400

/-- The decimal of `count` significant digits that reads back as `q`: of the two neighbours of `q`
the nearer, and in the middle the even one. -/
def withDigits? (q : Rat) (count : Nat) : Option Decimal :=
  let exponent := decimalExponent q - (count - 1 : Nat)
  let scaled := q / power 10 exponent
  let below := scaled.floor.toNat
  let near := (roundHalfEven scaled).toNat
  let far := if near == below then below + 1 else below
  ([near, far].map fun digits => Decimal.mk digits exponent).find? fun d => nearest d.value == q

/-- Removes the zeros at the end of the digits. -/
def Decimal.trimZeros (d : Decimal) : Nat → Decimal
  | 0 => d
  | fuel + 1 =>
    if d.digits != 0 && d.digits % 10 == 0 then
      Decimal.trimZeros ⟨d.digits / 10, d.exponent + 1⟩ fuel
    else d

/-- The decimal of fewest digits that reads back as the positive 53-bit number `q`. -/
def shortest (q : Rat) : Decimal :=
  match (List.range 17).findSome? fun fewer => withDigits? q (fewer + 1) with
  | some d => d.trimZeros 18
  | none => ⟨0, 0⟩

/-- How a number is written: the exponents of the first digit that are written positionally, and
what stands before the exponent otherwise. -/
structure Layout where
  leastPositional : Int
  mostPositional : Int
  positiveMark : String
  negativeMark : String

/-- Numbers have a point from `10 ^ (-5)` up to below `10 ^ 16` and an exponent beyond. -/
def jsonLayout : Layout :=
  ⟨-5, 15, "e+", "e-"⟩

def zeros (n : Nat) : String :=
  String.ofList (List.replicate n '0')

/-- The text of a positive decimal. A number without decimals ends in `.0`. -/
def Layout.write (layout : Layout) (d : Decimal) : String :=
  let digits := Nat.toDigits 10 d.digits
  let leading := d.exponent + (digits.length - 1 : Nat)
  if layout.leastPositional ≤ leading && leading ≤ layout.mostPositional then
    if 0 ≤ d.exponent then String.ofList digits ++ zeros d.exponent.toNat ++ ".0"
    else if 0 ≤ leading then
      let whole := leading.toNat + 1
      String.ofList (digits.take whole) ++ "." ++ String.ofList (digits.drop whole)
    else "0." ++ zeros (-leading - 1).toNat ++ String.ofList digits
  else
    let mantissa :=
      match digits with
      | [] => ""
      | [c] => String.singleton c
      | c :: rest => String.ofList (c :: '.' :: rest)
    if 0 ≤ leading then mantissa ++ layout.positiveMark ++ toString leading.toNat
    else mantissa ++ layout.negativeMark ++ toString (-leading).toNat

/-- The shortest text of a 53-bit number. -/
def text (q : Rat) : String :=
  if q == 0 then "0.0"
  else if q < 0 then "-" ++ jsonLayout.write (shortest (-q))
  else jsonLayout.write (shortest q)

end CodeHealth.Number
