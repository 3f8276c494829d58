import ToyC.Failure
import ToyC.Operator

/-!
Arithmetic and comparison of numbers. Two integers give an integer, exactly. The
quotient is that of the sizes, which rounds down, with a sign put in front of it; the
remainder is what the quotient leaves of the dividend. A double on either side makes
both sides doubles, except in comparisons, which are exact between the two kinds.
-/

namespace ToyC.Number

open Decimal (Binary)

/-- How two numbers compare; no-number compares with nothing. -/
def order? : Number → Number → Option Ordering
  | .int m, .int n => some (compare m n)
  | .float x, .float y => compareExact (Binary.ofFloat x) (Binary.ofFloat y)
  | .int m, .float y => compareExact (.finite (m < 0) m.natAbs 0) (Binary.ofFloat y)
  | .float x, .int n => compareExact (Binary.ofFloat x) (.finite (n < 0) n.natAbs 0)
where
  /-- the worth in units of two to the given power, which is no more than the exponent -/
  units (negative : Bool) (significand : Nat) (exponent unit : Int) : Int :=
    let size : Int := significand * Nat.pow 2 (exponent - unit).toNat
    if negative then -size else size
  compareExact : Binary → Binary → Option Ordering
    | .notANumber, _ | _, .notANumber => none
    | .infinite a, .infinite b => some (compare (!a) (!b))
    | .infinite negative, .finite .. => some (if negative then .lt else .gt)
    | .finite .., .infinite negative => some (if negative then .gt else .lt)
    | .finite a m j, .finite b n k =>
      some (compare (units a m j (min j k)) (units b n k (min j k)))

/-- Whether a comparison holds. With no-number only inequality does. -/
def compareBy (test : Comparison) (a b : Number) : Bool :=
  match test, order? a b with
  | .ne, o => o ≠ some .eq
  | .eq, o => o = some .eq
  | .lt, o => o = some .lt
  | .gt, o => o = some .gt
  | .le, some o => o ≠ .gt
  | .ge, some o => o ≠ .lt
  | _, none => false

/-- The remainder of two doubles: exact, with the sign of the dividend. That of an infinite
dividend is undefined; an infinite divisor leaves a finite dividend as it is. -/
def floatRem (x y : Float) : Except Fault Float :=
  match Binary.ofFloat x, Binary.ofFloat y with
  | .notANumber, _ => .ok x
  | _, .notANumber => .ok y
  | .infinite _, _ => .error .undefinedRemainder
  | .finite .., .infinite _ => .ok x
  | .finite negative m j, .finite _ n k =>
    let unit := min j k
    let rest := (m * Nat.pow 2 (j - unit).toNat) % (n * Nat.pow 2 (k - unit).toNat)
    let (num, den) := Decimal.scaled rest 1 unit
    match Decimal.nearest? negative num den with
    | some r => .ok r
    -- no rest is larger than its dividend, so none lies beyond the doubles
    | none => .ok x

def toFloats (a b : Number) : Except Failure (Float × Float) :=
  match a.toFloat with
  | .error e => .error (.fault e)
  | .ok x =>
    match b.toFloat with
    | .error e => .error (.fault e)
    | .ok y => .ok (x, y)

def truncDiv (left right : Int) : Int :=
  let quotient : Int := (left.natAbs / right.natAbs : Nat)
  if 0 ≤ left ↔ 0 ≤ right then quotient else -quotient

/-- Combine two numbers. Division and remainder by zero are mistakes of the program. -/
def combine (op : ArithOp) (a b : Number) : Except Failure Number :=
  if (op = .div ∨ op = .rem) ∧ b.isZero then .error (.mistake .divisionByZero)
  else
    match op, a, b with
    | .add, .int m, .int n => .ok (.int (m + n))
    | .sub, .int m, .int n => .ok (.int (m - n))
    | .mul, .int m, .int n => .ok (.int (m * n))
    | .div, .int m, .int n => .ok (.int (truncDiv m n))
    | .rem, .int m, .int n => .ok (.int (m - n * truncDiv m n))
    | op, a, b => do
      let (x, y) ← toFloats a b
      match op with
      | .add => pure (.float (x + y))
      | .sub => pure (.float (x - y))
      | .mul => pure (.float (x * y))
      | .div => pure (.float (x / y))
      | .rem =>
        match floatRem x y with
        | .ok r => pure (.float r)
        | .error e => throw (.fault e)

def operate (op : BinaryOp) (a b : Number) : Except Failure Number :=
  match op with
  | .or => .ok (ofBool (a.isTrue || b.isTrue))
  | .and => .ok (ofBool (a.isTrue && b.isTrue))
  | .compare test => .ok (ofBool (compareBy test a b))
  | .arith op => combine op a b

def operateSymbol (symbol : String) (a b : Number) : Except Failure Number :=
  match BinaryOp.ofSymbol? symbol with
  | some (.compare test) => .ok (ofBool (compareBy test a b))
  | some (.arith op) => combine op a b
  | _ => .error (.mistake (.unsupportedOperator symbol))

def negate : Number → Number
  | .int n => .int (-n)
  | .float x => .float (-x)

def applyUnary (op : UnaryOp) (a : Number) : Number :=
  match op with
  | .neg => a.negate
  | .not => ofBool a.isZero

def increment : Number → Number
  | .int n => .int (n + 1)
  | .float x => .float (x + 1.0)

def decrement : Number → Number
  | .int n => .int (n - 1)
  | .float x => .float (x - 1.0)

end ToyC.Number
