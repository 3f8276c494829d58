import ToyC.Number.Arith
import ToyC.Number.Power
import ToyC.Printf.Format
import ToyC.Run.Routine
import ToyC.Run.Scope

/-!
Evaluation of expressions. A mistake in an expression is absorbed by whoever asked
for its number, who goes on with zero. What aborts a run passes through every
expression: too deep a call, cancellation, and faults. An expression cannot change
the scope that it is evaluated in.

What calling a function of the program does is a parameter of this module. The
host's stack and memory are taken as unlimited: an evaluation goes as deep as its
expression and its calls, and integers grow as large as they become.
-/

namespace ToyC

/-- What ends a run before its main function does. -/
inductive Abort where
  | cancelled
  | tooDeep (function : String) (depth : Nat)
  | fault (cause : Fault)
  deriving DecidableEq, Repr

inductive Stop where
  | mistake (cause : EvalError)
  | abort (cause : Abort)
  deriving DecidableEq, Repr

def Stop.ofFailure : Failure → Stop
  | .mistake cause => .mistake cause
  | .fault cause => .abort (.fault cause)

/-- What the statements of a program need to know: its functions, how to call one, and how often
a loop may repeat. -/
structure Env where
  functions : Table Function
  call : Function → List Number → Routine (Except Abort Number)
  maxIterations : Int

abbrev Evaluation := ExceptT Stop Routine

namespace Evaluation

def ofResult {α : Type} : Except Failure α → Evaluation α
  | .ok value => .mk (.done (.ok value))
  | .error cause => .mk (.done (.error (.ofFailure cause)))

def ofCall {α : Type} (p : Routine (Except Abort α)) : Evaluation α :=
  .mk (p.bind fun
    | .ok value => .done (.ok value)
    | .error cause => .done (.error (.abort cause)))

def operand (value : Value) : Evaluation Number :=
  match value.toNumber with
  | .ok a => pure a
  | .error cause => throw (.mistake cause)

def absorb (note : EvalError → Note) (p : Evaluation Value) : Routine (Except Abort Value) :=
  p.run.bind fun
    | .ok value => .done (.ok value)
    | .error (.mistake cause) => (Routine.record (note cause)).bind fun _ => .done (.ok (.number 0))
    | .error (.abort cause) => .done (.error cause)

/-- The number of an expression; mistakes and text are worth zero. -/
def number (p : Evaluation Value) : Routine (Except Abort Number) :=
  (absorb .degraded p).bind fun
    | .ok (.number a) => .done (.ok a)
    | .ok (.text _) => .done (.ok 0)
    | .error cause => .done (.error cause)

end Evaluation

open Evaluation

mutual

/-- The value of an expression. The right operand of a logical operator is evaluated only where
the left one does not decide. -/
def eval (env : Env) (scope : Scope) : Expr → Evaluation Value
  | .literal _ value => pure value
  | .name _ ident =>
    match Scope.get? ident scope with
    | some a => pure (.number a)
    | none => throw (.mistake (.unknownIdentifier ident))
  | .unary _ op e => do
    let a ← operand (← eval env scope e)
    return .number (a.applyUnary op)
  | .binary _ .or left right => do
    let a ← operand (← eval env scope left)
    if a.isTrue then return .number 1
    else
      let b ← operand (← eval env scope right)
      return .number (.ofBool b.isTrue)
  | .binary _ .and left right => do
    let a ← operand (← eval env scope left)
    if a.isTrue then
      let b ← operand (← eval env scope right)
      return .number (.ofBool b.isTrue)
    else return .number 0
  | .binary _ op left right => do
    let a ← operand (← eval env scope left)
    let b ← operand (← eval env scope right)
    return .number (← ofResult (Number.operate op a b))
  | .call _ func args =>
    -- a function of the program hides the built-in one of its name
    match Table.get? func env.functions with
    | some f => do
      let values ← evalArgs env scope args
      return .number (← ofCall (env.call f values))
    | none =>
      match Builtin.ofName? func with
      | some builtin =>
        if args.length ≠ builtin.arity then
          throw (.mistake (.wrongArity builtin.name builtin.arity args.length))
        else do
          let values ← evalArgs env scope args
          return .number (← ofResult (builtin.applyNumbers values))
      | none => throw (.mistake (.unknownFunction func))
  | .invalid text => throw (.mistake (.unreadable text))

/-- The numbers of arguments, left to right. Each absorbs its own mistakes. -/
def evalArgs (env : Env) (scope : Scope) : List Expr → Evaluation (List Number)
  | [] => pure []
  | arg :: rest => do
    let a ← ofCall (number (eval env scope arg))
    let more ← evalArgs env scope rest
    return a :: more

end

def evaluate (env : Env) (scope : Scope) (e : Expr) : Routine (Except Abort Number) :=
  number (eval env scope e)

def evalValues (env : Env) (scope : Scope) : List Expr → Routine (Except Abort (List Value))
  | [] => .done (.ok [])
  | e :: rest =>
    (absorb .degradedArgument (eval env scope e)).bind fun
      | .error cause => .done (.error cause)
      | .ok value =>
        (evalValues env scope rest).bind fun
          | .error cause => .done (.error cause)
          | .ok more => .done (.ok (value :: more))

end ToyC
