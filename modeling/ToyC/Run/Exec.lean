import ToyC.Run.Eval

/-!
Execution of statements. A statement takes a scope to a scope and ends in one of
five ways; all but completing skip what follows, up to the loop or function that
the ending is meant for. After every statement that completes in a block, and at
the end of every iteration of a loop, the routine can be cancelled.
-/

namespace ToyC

inductive Ending where
  | completed
  | returned (value : Number)
  | broke
  | continued
  | aborted (cause : Abort)

/-- The execution of a statement: the scope it leaves, and how it ended. -/
abbrev Execution := Routine (Scope × Ending)

namespace Execution

def withNumber (scope : Scope) (p : Routine (Except Abort Number)) (next : Number → Execution) :
    Execution :=
  p.bind fun
    | .ok a => next a
    | .error cause => .done (scope, .aborted cause)

def afterYield (scope : Scope) (next : Unit → Execution) : Execution :=
  Routine.yieldPoint.bind fun cancelled =>
    if cancelled then .done (scope, .aborted .cancelled) else next ()

def inChild (scope : Scope) (body : Scope → Execution) : Execution :=
  (body scope.child).bind fun (inner, ending) => .done (inner.parent, ending)

end Execution

open Execution

/-- The number that an arithmetic assignment stores: a mistake stores zero. An operand that
equals zero takes part as the integer. -/
def updated (op : ArithOp) (current value : Number) : Routine (Except Abort Number) :=
  match Number.combine op current (if value.isZero then 0 else value) with
  | .ok a => .done (.ok a)
  | .error (.mistake cause) => (Routine.record (.degradedUpdate cause)).bind fun _ => .done (.ok 0)
  | .error (.fault cause) => .done (.error (.fault cause))

/-- Change a variable. The value is evaluated first, also where the variable is not declared and
nothing is stored. -/
def assign (env : Env) (scope : Scope) (target : String) (change : Change) : Execution :=
  let store (current? : Option Number) (result : Number → Routine (Except Abort Number)) :
      Execution :=
    match current? with
    | none =>
      (Routine.record (.undeclared target)).bind fun _ => .done (scope, .completed)
    | some current =>
      withNumber scope (result current) fun a => .done (scope.set target a, .completed)
  let current? := Scope.get? target scope
  match change with
  | .set e => withNumber scope (evaluate env scope e) fun a =>
      store current? fun _ => .done (.ok a)
  | .update op e => withNumber scope (evaluate env scope e) fun a =>
      store current? fun current => updated op current a
  | .increment => store current? fun current => .done (.ok current.increment)
  | .decrement => store current? fun current => .done (.ok current.decrement)

/-- Declare names one by one; each sees those before it. -/
def declare (env : Env) (scope : Scope) : List Declarator → Execution
  | [] => .done (scope, .completed)
  | d :: rest =>
    match d.value with
    | none => declare env (scope.define d.name 0) rest
    | some e =>
      (evaluate env scope e).bind fun
        | .ok a => declare env (scope.define d.name a) rest
        | .error cause => .done (scope, .aborted cause)

def execDeed (env : Env) (scope : Scope) : Deed → Execution
  | .returns none => .done (scope, .returned 0)
  | .returns (some e) => withNumber scope (evaluate env scope e) fun a =>
      .done (scope, .returned a)
  | .prints fmt args =>
    (evalValues env scope args).bind fun
      | .error cause => .done (scope, .aborted cause)
      | .ok values =>
        match Printf.format fmt values with
        | .error cause => .done (scope, .aborted (.fault cause))
        | .ok text => (Routine.emit text).bind fun _ => .done (scope, .completed)
  | .declares _ declarators => declare env scope declarators
  | .assigns target change => assign env scope target change
  | .evaluates e => withNumber scope (evaluate env scope e) fun _ => .done (scope, .completed)
  | .breaks => .done (scope, .broke)
  | .continues => .done (scope, .continued)

def execClause (env : Env) (scope : Scope) : Option Simple → Execution
  | none => .done (scope, .completed)
  | some clause => execDeed env scope clause.deed

/-- The text that reports a loop which repeats too often; a limit with too many digits has none. -/
def runawayMessage (limit : Int) : Except Fault String := do
  let size ← Decimal.numeral limit
  return "Error: infinite loop detected (exceeded " ++ size ++ " iterations)\n"

def reportRunaway (env : Env) (src : String) (scope : Scope) : Execution :=
  (Routine.record (.runawayLoop src env.maxIterations)).bind fun _ =>
    match runawayMessage env.maxIterations with
    | .ok text => (Routine.emit text).bind fun _ => .done (scope, .completed)
    | .error cause => .done (scope, .aborted (.fault cause))

/-- Repeat a body while a condition holds, and run the step behind it; `left` is how often the
loop may still repeat. A loop that may not repeat again is reported and left. -/
def repeatLoop (env : Env) (src : String) (condition : Scope → Routine (Except Abort Number))
    (body step : Scope → Execution) : Nat → Scope → Execution
  | left, scope =>
    withNumber scope (condition scope) fun c =>
      if c.isZero then .done (scope, .completed)
      else
        match left with
        | 0 => reportRunaway env src scope
        | left + 1 =>
          (inChild scope body).bind fun
            | (scope, .completed) | (scope, .continued) =>
              (step scope).bind fun
                | (scope, .completed) =>
                  afterYield scope fun _ => repeatLoop env src condition body step left scope
                | stopped => .done stopped
            | (scope, .broke) => .done (scope, .completed)
            | stopped => .done stopped

mutual

def exec (env : Env) (scope : Scope) : Stmt → Execution
  | .simple s => execDeed env scope s.deed
  | .branch _ condition yes no =>
    withNumber scope (evaluate env scope condition) fun c =>
      if c.isTrue then inChild scope fun inner => execBlock env inner yes
      else execOther env scope no
  | .whileLoop src condition body =>
    repeatLoop env src (fun inner => evaluate env inner condition)
      (fun inner => execBlock env inner body) (fun inner => .done (inner, .completed))
      env.maxIterations.toNat scope
  | .forLoop src start condition next body =>
    -- the clauses share one scope, and each iteration has its own inside
    inChild scope fun inner =>
      (execClause env inner start).bind fun
        | (inner, .completed) =>
          repeatLoop env src
            (fun inner =>
              match condition with
              | none => .done (.ok 1)
              | some e => evaluate env inner e)
            (fun inner => execBlock env inner body) (fun inner => execClause env inner next)
            env.maxIterations.toNat inner
        | stopped => .done stopped
  | .block _ body => inChild scope fun inner => execBlock env inner body

def execBlock (env : Env) (scope : Scope) : List Stmt → Execution
  | [] => .done (scope, .completed)
  | stmt :: rest =>
    (exec env scope stmt).bind fun
      | (scope, .completed) => afterYield scope fun _ => execBlock env scope rest
      | stopped => .done stopped

def execOther (env : Env) (scope : Scope) : Option (List Stmt) → Execution
  | none => .done (scope, .completed)
  | some body => inChild scope fun inner => execBlock env inner body

end

end ToyC
