/-!
Doubles as exact dyadic numbers: what a double is worth, and the double nearest
to a quotient of natural numbers. A half goes to the neighbour with the even
significand.

The bits of the non-negative doubles, read as natural numbers, increase with the
doubles. The double `m · 2 ^ (k - 1074)` with `m < 2 ^ 53` has the bits
`k · 2 ^ 52 + m`, also where `m` has fewer than 53 digits and `k` is zero, and also
where rounding carried `m` up to `2 ^ 53`. So one formula encodes them all.
-/

namespace ToyC.Decimal

/-- What a double is worth: `± significand · 2 ^ exponent`, an infinity, or no number. -/
inductive Binary where
  | finite (negative : Bool) (significand : Nat) (exponent : Int)
  | infinite (negative : Bool)
  | notANumber
  deriving DecidableEq, Repr

def minExponent : Int := -1074

/-- The bits of positive infinity: one more than those of the largest double. -/
def infinityBits : Nat := 0x7ff0000000000000

def Binary.ofFloat (x : Float) : Binary :=
  let bits : Nat := x.toBits.toNat
  let negative := Nat.pow 2 63 ≤ bits
  let biased : Nat := bits / Nat.pow 2 52 % Nat.pow 2 11
  let fraction : Nat := bits % Nat.pow 2 52
  if biased = Nat.pow 2 11 - 1 then
    if fraction = 0 then .infinite negative else .notANumber
  else if biased = 0 then .finite negative fraction minExponent
  else .finite negative (Nat.pow 2 52 + fraction) (minExponent + ((biased : Int) - 1))

/-- The quotient of two natural numbers rounded to the nearest, a half to the even one. -/
def roundDiv (num den : Nat) : Nat :=
  let quotient := num / den
  let remainder := num % den
  if 2 * remainder < den ∨ (2 * remainder = den ∧ quotient % 2 = 0) then quotient
  else quotient + 1

/-- `num / den · 2 ^ shift` as a quotient of natural numbers. -/
def scaled (num den : Nat) (shift : Int) : Nat × Nat :=
  if 0 ≤ shift then (num * Nat.pow 2 shift.toNat, den) else (num, den * Nat.pow 2 (-shift).toNat)

/-- The exponent `k` with `2 ^ k ≤ num / den < 2 ^ (k + 1)`. -/
def binaryExponent (num den : Nat) : Int :=
  let guess : Int := (num.log2 : Int) - (den.log2 : Int)
  let (low, unit) := scaled num den (-guess)
  if low < unit then guess - 1 else guess

/-- The bits of the double nearest to `num / den`; those of infinity or more where it lies
beyond the largest double. -/
def nearestBits (num den : Nat) : Nat :=
  if num = 0 then 0
  else
    let exponent := max (binaryExponent num den - 52) minExponent
    let (top, bottom) := scaled num den (-exponent)
    (exponent - minExponent).toNat * Nat.pow 2 52 + roundDiv top bottom

def ofMagnitudeBits (negative : Bool) (bits : Nat) : Float :=
  Float.ofBits (UInt64.ofNat (if negative then Nat.pow 2 63 + bits else bits))

def nearest? (negative : Bool) (num den : Nat) : Option Float :=
  let bits := nearestBits num den
  if bits < infinityBits then some (ofMagnitudeBits negative bits) else none

def ofInt? (n : Int) : Option Float :=
  nearest? (n < 0) n.natAbs 1

/-- The double nearest to `significand · 10 ^ exponent`; infinity beyond the doubles. The two
outer cases spare the power of ten: at three hundred and ten places before the point every
double is passed, and at three hundred and thirty after it none is reached. -/
def ofDecimal (significand : Nat) (exponent : Int) : Float :=
  let places : Int := ((Nat.toDigits 10 significand).length : Int) + exponent
  if significand = 0 ∨ places < -330 then 0.0
  else if 310 < places then ofMagnitudeBits false infinityBits
  else
    let (num, den) :=
      if 0 ≤ exponent then (significand * Nat.pow 10 exponent.toNat, 1)
      else (significand, Nat.pow 10 (-exponent).toNat)
    (nearest? false num den).getD (ofMagnitudeBits false infinityBits)

end ToyC.Decimal
