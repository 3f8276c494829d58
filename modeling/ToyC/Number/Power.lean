import ToyC.Failure
import ToyC.Number.Text

/-!
Powers of doubles, and the built-in functions, of which raising to a power is
the only one.
-/

namespace ToyC

namespace Number

/-- A power of two doubles. Finite operands must have a finite power: a result that is no
number, and a negative power of zero, are outside the domain, any other infinite one is out of
range. -/
def floatPower (x y : Float) : Except PowerError Float :=
  let r := x.pow y
  if x.isFinite && y.isFinite then
    if r.isNaN then .error .domain
    else if r.isInf then .error (if x == 0.0 then .domain else .range)
    else .ok r
  else .ok r

def power (base exponent : Number) : Except Failure Number :=
  let result : Except PowerError Float :=
    match base.toFloat, exponent.toFloat with
    | .ok x, .ok y => floatPower x y
    | _, _ => .error .operandTooLarge
  match result with
  | .ok r => .ok (.float r)
  | .error cause =>
    match base.exactText, exponent.exactText with
    | .ok b, .ok e => .error (.mistake (.power b e cause))
    | .error fault, _ | _, .error fault => .error (.fault fault)

end Number

/-- The functions that every program can call without defining them. -/
inductive Builtin where
  | pow
  deriving DecidableEq, Repr

namespace Builtin

def name : Builtin → String
  | .pow => "pow"

def arity : Builtin → Nat
  | .pow => 2

def ofName? (name : String) : Option Builtin :=
  [Builtin.pow].find? (·.name == name)

def applyNumbers : Builtin → List Number → Except Failure Number
  | .pow, [base, exponent] => Number.power base exponent
  | .pow, [] => .error (.fault (.tooFewValues 0))
  | .pow, [_] => .error (.fault (.tooFewValues 1))
  | .pow, _ => .error (.fault .tooManyValues)

/-- Apply a built-in function to values. Values are looked at one by one up to the first that
is too many, so text among them is noticed before a wrong count. -/
def apply (f : Builtin) (values : List Value) : Except Failure Number :=
  match (values.take (f.arity + 1)).mapM Value.toNumber with
  | .error e => .error (.mistake e)
  | .ok numbers => f.applyNumbers numbers

end Builtin

end ToyC
