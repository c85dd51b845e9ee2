/-!
# Rounding

Rounding of exact rationals: to the nearest integer, to decimal places, and to the nearest number
with 53 significant bits and a last bit no smaller than `2 ^ (-1074)`. A half goes to the even
neighbour. The numbers of a magnitude below `2 ^ 1024` are the finite ones.
-/

namespace CodeHealth.Number

/-- The nearest integer; a half goes to the even neighbour. -/
def roundHalfEven (q : Rat) : Int :=
  let below := q.floor
  let rest := q - below
  if rest < 1 / 2 then below
  else if 1 / 2 < rest then below + 1
  else if below % 2 == 0 then below
  else below + 1

/-- The power `base ^ e` for an exponent of either sign. -/
def power (base : Nat) (e : Int) : Rat :=
  (base : Rat) ^ e

/-- The smaller of two numbers. -/
def smaller (a b : Rat) : Rat :=
  if a ≤ b then a else b

/-- The larger of two numbers. -/
def larger (a b : Rat) : Rat :=
  if a ≤ b then b else a

/-- The exponent `e` with `2 ^ e ≤ q < 2 ^ (e + 1)`, for a positive `q`. -/
def binaryExponent (q : Rat) : Int :=
  let e : Int := (q.num.natAbs.log2 : Int) - (q.den.log2 : Int)
  if power 2 e ≤ q then e else e - 1

/-- The value of the last bit of a 53-bit number of the magnitude of `q`. -/
def lastBit (q : Rat) : Rat :=
  power 2 (max (binaryExponent q - 52) (-1074))

/-- The nearest 53-bit number. -/
def nearest (q : Rat) : Rat :=
  if q == 0 then 0
  else
    let unit := lastBit q.abs
    roundHalfEven (q / unit) * unit

/-- The nearest 53-bit number if it is a finite one. -/
def finite? (q : Rat) : Option Rat :=
  let rounded := nearest q
  if rounded.abs < power 2 1024 then some rounded else none

/-- The quotient, rounded to 53 bits. -/
def divide (a b : Rat) : Rat :=
  nearest (a / b)

/-- The nearest 53-bit number to the value rounded to `places` decimals. -/
def roundTo (places : Nat) (q : Rat) : Rat :=
  nearest (roundHalfEven (q * power 10 places) / power 10 places)

end CodeHealth.Number
