import ToyC.Fault
import ToyC.Decimal.Binary

/-!
The numbers of the language: integers without bounds and doubles. The kind of a
number is decided by how it arose and not by its worth; integers never overflow.
-/

namespace ToyC

inductive Number where
  | int (n : Int)
  | float (x : Float)

instance : Inhabited Number := ⟨.int 0⟩

instance (n : Nat) : OfNat Number n := ⟨.int n⟩

namespace Number

def ofBool (b : Bool) : Number :=
  .int (if b then 1 else 0)

/-- Whether a number equals zero; either zero of the doubles does. -/
def isZero : Number → Bool
  | .int n => n == 0
  | .float x => x == 0.0

/-- Conditions hold for every number but zero, so also for no-number. -/
def isTrue (a : Number) : Bool :=
  !a.isZero

def toFloat : Number → Except Fault Float
  | .int n =>
    match Decimal.ofInt? n with
    | some x => .ok x
    | none => .error .beyondDouble
  | .float x => .ok x

/-- The integer part of a number, rounded toward zero; infinities and no-number have none. -/
def truncate? : Number → Option Int
  | .int n => some n
  | .float x =>
    match Decimal.Binary.ofFloat x with
    | .finite negative significand exponent =>
      let (num, den) := Decimal.scaled significand 1 exponent
      let size : Int := num / den
      some (if negative then -size else size)
    | _ => none

def integral? (x : Float) : Option Int :=
  match Decimal.Binary.ofFloat x with
  | .finite negative significand exponent =>
    let (num, den) := Decimal.scaled significand 1 exponent
    if num % den = 0 then
      let size : Int := num / den
      some (if negative then -size else size)
    else none
  | _ => none

end Number

/-- What an expression can stand for: a number, or text that only printing can use. -/
inductive Value where
  | number (a : Number)
  | text (s : String)

end ToyC
