import DataShapes.Json.Double

/-! # Shortest decimals

The decimal of fewest digits that reads back as a given floating-point number, the nearest of those,
and of two equally near the even one. The search goes through the grids of 1, 2, … 17 digits and tests
the two neighbours of the number on each, in exact arithmetic. -/

namespace DataShapes

/-- The decimal `digits * 10 ^ exponent`. -/
structure Decimal where
  digits : Nat
  exponent : Int
  deriving DecidableEq, Repr

namespace Decimal

/-- Compares `digits * 10 ^ exponent` with `n * 2 ^ q`. -/
def compareBinary (x : Decimal) (n : Nat) (q : Int) : Ordering :=
  compare (x.digits * Nat.pow 10 x.exponent.toNat * Nat.pow 2 (-q).toNat)
    (n * Nat.pow 2 q.toNat * Nat.pow 10 (-x.exponent).toNat)

/-- Drops trailing zeros of the digits, at most `limit` of them. -/
def dropZeros : (limit : Nat) → Decimal → Decimal
  | 0, x => x
  | limit + 1, x =>
    if x.digits ≠ 0 ∧ x.digits % 10 = 0 then dropZeros limit ⟨x.digits / 10, x.exponent + 1⟩ else x

end Decimal

namespace Double

/-- Below a power of two the next number is only half as far away as above it. -/
def narrowBelow (d : Double) : Bool := d.mantissa == Nat.pow 2 52 && 1 < d.exponentField

/-- Whether a decimal lies among the reals that round to the number without its sign. The ends of that
interval belong to it exactly when the mantissa is even. -/
def readsBack (d : Double) (x : Decimal) : Bool :=
  let low := x.compareBinary (4 * d.mantissa - if d.narrowBelow then 1 else 2) (d.exponent - 2)
  let high := x.compareBinary (4 * d.mantissa + 2) (d.exponent - 2)
  let closed := d.mantissa % 2 == 0
  (low == .gt || (closed && low == .eq)) && (high == .lt || (closed && high == .eq))

/-- The least `k` for which the number without its sign is below `10 ^ k`. The binary logarithm tells
it up to two. -/
def decimalPlaces (d : Double) : Int :=
  let guess := ((Nat.log2 d.mantissa : Int) + d.exponent) * 30103 / 100000
  let below (k : Int) : Bool := (Decimal.mk 1 k).compareBinary d.mantissa d.exponent == .gt
  if below guess then guess else if below (guess + 1) then guess + 1 else guess + 2

/-- The larger of the two neighbours of the number on the grid of `10 ^ exponent` is one more than this. -/
def floorAt (d : Double) (exponent : Int) : Nat :=
  (d.mantissa * Nat.pow 2 d.exponent.toNat * Nat.pow 10 (-exponent).toNat) /
    (Nat.pow 2 (-d.exponent).toNat * Nat.pow 10 exponent.toNat)

/-- Which of `n` and `n + 1` on the grid of `10 ^ exponent` is nearer to the number. -/
def nearerOf (d : Double) (n : Nat) (exponent : Int) : Decimal :=
  match (Decimal.mk (2 * n + 1) exponent).compareBinary (2 * d.mantissa) d.exponent with
  | .lt => ⟨n + 1, exponent⟩
  | .gt => ⟨n, exponent⟩
  | .eq => ⟨if n % 2 = 0 then n else n + 1, exponent⟩

/-- A decimal on the grid of `10 ^ exponent` that reads back, if there is one. -/
def onGrid? (d : Double) (exponent : Int) : Option Decimal :=
  let n := d.floorAt exponent
  match d.readsBack ⟨n, exponent⟩, d.readsBack ⟨n + 1, exponent⟩ with
  | true, true => some (d.nearerOf n exponent)
  | true, false => some ⟨n, exponent⟩
  | false, true => some ⟨n + 1, exponent⟩
  | false, false => none

def exact (d : Double) : Decimal :=
  if 0 ≤ d.exponent then ⟨d.mantissa * Nat.pow 2 d.exponent.toNat, 0⟩
  else ⟨d.mantissa * Nat.pow 5 (-d.exponent).toNat, d.exponent⟩

/-- The shortest decimal that reads back as the number without its sign, which is not zero. -/
def shortest (d : Double) : Decimal :=
  let places := d.decimalPlaces
  let found := (List.range 17).findSome? fun (n : Nat) => d.onGrid? (places - (n + 1))
  (found.getD d.exact).dropZeros 17

end Double

end DataShapes
