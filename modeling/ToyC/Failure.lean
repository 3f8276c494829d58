import ToyC.Fault
import ToyC.Number
import ToyC.Text.Quoted

/-!
Why an expression has no value. Most causes are absorbed by the statement that
evaluates the expression, which then goes on with zero; a fault is not.
-/

namespace ToyC

inductive PowerError where
  | domain
  | range
  | operandTooLarge
  deriving DecidableEq, Repr

def PowerError.message : PowerError → String
  | .domain => "math domain error"
  | .range => "math range error"
  | .operandTooLarge => Fault.beyondDouble.message

/-- A mistake in an expression that the surrounding statement absorbs. -/
inductive EvalError where
  | unknownIdentifier (name : String)
  | unknownFunction (name : String)
  | notANumber (text : String)
  | divisionByZero
  | unsupportedOperator (symbol : String)
  | wrongArity (name : String) (expected given : Nat)
  /-- raising to a power, with both operands in the exact form -/
  | power (base exponent : String) (cause : PowerError)
  | unreadable (text : String)
  deriving DecidableEq, Repr

def EvalError.message : EvalError → String
  | .unknownIdentifier name => "Unknown identifier '" ++ name ++ "'"
  | .unknownFunction name => "Unknown function '" ++ name ++ "'"
  | .notANumber text => "expected a number, got string " ++ Text.quoted text
  | .divisionByZero => "division by zero"
  | .unsupportedOperator symbol => "Unsupported operator " ++ symbol
  | .wrongArity name expected given =>
    name ++ " expects " ++ toString expected ++ " args, got " ++ toString given
  | .power base exponent cause => "pow(" ++ base ++ ", " ++ exponent ++ "): " ++ cause.message
  | .unreadable text => "cannot evaluate " ++ Text.quoted text

/-- Why an operation on values has no result: a mistake that will be absorbed, or a fault. -/
inductive Failure where
  | mistake (cause : EvalError)
  | fault (cause : Fault)
  deriving DecidableEq, Repr

def Failure.message : Failure → String
  | .mistake cause => cause.message
  | .fault cause => cause.message

def Value.toNumber : Value → Except EvalError Number
  | .number a => .ok a
  | .text s => .error (.notANumber s)

end ToyC
