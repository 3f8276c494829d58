import ToyC.Decimal.Binary

/-!
The shortest decimal that reads back as a double: of all decimals that round to
it, one with the fewest digits, and of those the nearest. For each count of
digits it is enough to look at the two neighbours of the double on the grid of
decimals with that many digits.
-/

namespace ToyC.Decimal

/-- A positive decimal: `digits · 10 ^ (exponent + 1 - length of digits)`, so that the first
digit stands at `10 ^ exponent`. -/
structure Scientific where
  digits : List Char
  exponent : Int
  deriving DecidableEq, Repr

def powerLe (k : Int) (num den : Nat) : Bool :=
  if 0 ≤ k then Nat.pow 10 k.toNat * den ≤ num else den ≤ num * Nat.pow 10 (-k).toNat

/-- The exponent `k` with `10 ^ k ≤ num / den < 10 ^ (k + 1)`, from an estimate by the binary
exponent that is at most three too small. -/
def decimalExponent (num den : Nat) : Int :=
  let low := (binaryExponent num den * 30103).fdiv 100000 - 1
  if powerLe (low + 3) num den then low + 3
  else if powerLe (low + 2) num den then low + 2
  else if powerLe (low + 1) num den then low + 1
  else low

/-- The decimals that round to a double: the double, the two ends half way to its neighbours,
all three over the denominator `unit`, and whether the ends belong to it. -/
structure Rounding where
  low : Nat
  value : Nat
  high : Nat
  unit : Nat
  closed : Bool

/-- The decimals that round to `significand · 2 ^ exponent`. Below a power of two the
neighbours are twice as close; an end belongs to the even neighbour. -/
def Rounding.of (significand : Nat) (exponent : Int) : Rounding :=
  let narrow := significand = Nat.pow 2 52 ∧ minExponent < exponent
  let (factor, unit) := scaled 1 1 (exponent - 2)
  { low := (4 * significand - if narrow then 1 else 2) * factor
    value := 4 * significand * factor
    high := (4 * significand + 2) * factor
    unit
    closed := significand % 2 = 0 }

def Rounding.accepts (r : Rounding) (num den : Nat) : Bool :=
  let here := num * r.unit
  if r.closed then r.low * den ≤ here && here ≤ r.high * den
  else r.low * den < here && here < r.high * den

def gridPoint (count : Nat) (place : Int) : Nat × Nat :=
  if 0 ≤ place then (count * Nat.pow 10 place.toNat, 1) else (count, Nat.pow 10 (-place).toNat)

/-- The neighbour of the double among the multiples of `10 ^ place` that rounds to it; of two
the nearer, of two equally near the even one. -/
def Rounding.onGrid? (r : Rounding) (place : Int) : Option Nat :=
  let (step, den) := gridPoint 1 place
  let below := r.value * den / (r.unit * step)
  let lowHit := r.accepts (below * step) den
  let highHit := r.accepts ((below + 1) * step) den
  match lowHit, highHit with
  | true, true => some (roundDiv (r.value * den) (r.unit * step))
  | true, false => some below
  | false, true => some (below + 1)
  | false, false => none

/-- Try one more digit until a grid has a hit. Seventeen digits always suffice. -/
def Rounding.search (r : Rounding) (top : Int) : Nat → Nat → Nat × Int
  | count, 0 => (r.value * Nat.pow 10 count / r.unit, -(count : Int))
  | count, tries + 1 =>
    let place := top - count
    match r.onGrid? place with
    | some multiple => (multiple, place)
    | none => search r top (count + 1) tries

def shortest (significand : Nat) (exponent : Int) : Scientific :=
  let r := Rounding.of significand exponent
  let top := decimalExponent r.value r.unit
  let (multiple, place) := r.search top 0 18
  let digits := Nat.toDigits 10 multiple
  { digits := (digits.reverse.dropWhile (· == '0')).reverse
    exponent := place + (digits.length : Int) - 1 }

end ToyC.Decimal
