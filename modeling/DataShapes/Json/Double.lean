import DataShapes.Json.Value

/-! # Binary floating-point numbers

A finite number is a sign and `mantissa * 2 ^ exponent`. Everything here is exact arithmetic on
naturals followed by one rounding, `Double.nearest`: to the nearest number, a tie going to the even
mantissa, and to no number at all beyond the largest finite one. -/

namespace DataShapes

namespace Double

/-- The sign bit. -/
def negative (d : Double) : Bool := d.bits.toNat / Nat.pow 2 63 == 1

/-- The number without its sign, as a bit pattern. -/
def magnitude (d : Double) : Nat := d.bits.toNat % Nat.pow 2 63

/-- The exponent field of the bit pattern. -/
def exponentField (d : Double) : Nat := d.magnitude / Nat.pow 2 52

/-- A finite number is, but for its sign, `mantissa * 2 ^ exponent`. -/
def mantissa (d : Double) : Nat :=
  if d.exponentField = 0 then d.magnitude else d.magnitude % Nat.pow 2 52 + Nat.pow 2 52

def exponent (d : Double) : Int :=
  if d.exponentField = 0 then -1074 else (d.exponentField : Int) - 1075

/-- The number of a sign and a bit pattern without sign. -/
def ofMagnitude (negative : Bool) (magnitude : Nat) : Double :=
  ⟨UInt64.ofNat ((if negative then Nat.pow 2 63 else 0) + magnitude)⟩

def neg (d : Double) : Double := ofMagnitude (!d.negative) d.magnitude

/-- Whether the number is zero, of either sign. -/
def isZero (d : Double) : Bool := d.magnitude == 0

/-- The bit patterns from here on are no finite numbers. -/
def infinity : Nat := 0x7FF0000000000000

/-- The quotient `num / den` rounded to a natural, a half going to the even neighbour. -/
def roundDiv (num den : Nat) : Nat :=
  let quotient := num / den
  let twice := 2 * (num % den)
  if twice > den ∨ (twice = den ∧ quotient % 2 = 1) then quotient + 1 else quotient

/-- The bit pattern of `num / den` rounded at the unit `2 ^ exponent`. A quotient rounded up to
`2 ^ 53` lands on the first pattern of the next exponent. -/
def roundAt (num den : Nat) (exponent : Int) : Nat :=
  (exponent + 1074).toNat * Nat.pow 2 52 +
    roundDiv (num * Nat.pow 2 (-exponent).toNat) (den * Nat.pow 2 exponent.toNat)

/-- The finite number nearest to `num / den`, `none` when it is too large. The unit is the least one,
not below `2 ^ (-1074)`, in which the quotient stays below `2 ^ 53`. Zero has no such unit. -/
def nearest (negative : Bool) (num den : Nat) : Option Double :=
  let low := max (-1074) ((Nat.log2 num : Int) - Nat.log2 den - 53)
  let fits := num * Nat.pow 2 (-low).toNat < Nat.pow 2 53 * (den * Nat.pow 2 low.toNat)
  let magnitude := if num = 0 then 0 else roundAt num den (if fits then low else low + 1)
  if magnitude < infinity then some (ofMagnitude negative magnitude) else none

/-- The product with a positive number, `none` when it is too large. -/
def mul? (d e : Double) : Option Double :=
  let exponent := d.exponent + e.exponent
  nearest d.negative (d.mantissa * e.mantissa * Nat.pow 2 exponent.toNat) (Nat.pow 2 (-exponent).toNat)

/-- The quotient by a positive number that is not zero. -/
def div? (d e : Double) : Option Double :=
  let exponent := d.exponent - e.exponent
  nearest d.negative (d.mantissa * Nat.pow 2 exponent.toNat) (e.mantissa * Nat.pow 2 (-exponent).toNat)

/-- Whether a finite number is a whole number. -/
def isWhole (d : Double) : Bool :=
  d.mantissa % Nat.pow 2 (-d.exponent).toNat == 0

/-- The number nearest to a natural below `2 ^ 64`. -/
def ofNat? (n : Nat) : Option Double := nearest false n 1

def powerOfTen? (k : Nat) : Option Double := nearest false (Nat.pow 10 k) 1

/-- `d * 10 ^ exponent` for an exponent of at most 308 either way. The power of ten is rounded first
and the product or the quotient then. -/
def scaleOnce (d : Double) (exponent : Int) : Option Double :=
  (powerOfTen? exponent.natAbs).bind fun power =>
    if 0 ≤ exponent then d.mul? power else d.div? power

/-- Divides by `10 ^ 308` as often as asked; zero stays as it is. -/
def scaleDown : (steps : Nat) → (d : Double) → Option Double
  | 0, d => some d
  | steps + 1, d =>
    if d.isZero then some d
    else ((powerOfTen? 308).bind d.div?).bind (scaleDown steps)

/-- `d * 10 ^ exponent`, `none` when it is too large. A quotient by more than `10 ^ 308` is taken in
steps, each of them rounded. -/
def scale (d : Double) (exponent : Int) : Option Double :=
  if exponent.natAbs ≤ 308 then d.scaleOnce exponent
  else if 0 ≤ exponent then (if d.isZero then some d else none)
  else
    let steps := (exponent.natAbs - 1) / 308
    (d.scaleDown steps).bind fun smaller => smaller.scaleOnce (exponent + 308 * steps)

end Double

end DataShapes
