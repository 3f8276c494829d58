import Mathlib.Algebra.Order.BigOperators.Group.List
import Mathlib.Algebra.Order.Group.Nat
import Mathlib.Algebra.GroupWithZero.Nat
import ToyC.Proofs.Table
import ToyC.Run.Call
import ToyC.Syntax.Program

/-!
How much fuel is enough. A unit is spent on every statement, every node of an
expression, every test of a loop and every call; the cost of a piece of a program is
a number of units that covers it whatever it does. It is found from the text, from
what a call costs, and from how often a loop may repeat. The cost of a call is found
from how many calls may nest inside it.
-/

namespace ToyC

/-- The prices that the cost of a piece of a program depends on. -/
structure Prices where
  /-- a number of units that covers any call -/
  call : Nat
  /-- how often a loop may repeat -/
  repetitions : Nat

namespace Prices

variable (prices : Prices)

mutual

/-- The cost of an expression. -/
def expr : Expr → Nat
  | .literal .. | .name .. | .invalid _ => 1
  | .unary _ _ e => expr e + 1
  | .binary _ _ left right => expr left + expr right + 1
  | .call _ _ args => exprs args + prices.call + 1

/-- The cost of expressions one after another. -/
def exprs : List Expr → Nat
  | [] => 0
  | e :: rest => expr e + exprs rest

end

/-- The cost of an expression that may be missing. -/
def expr? : Option Expr → Nat
  | none => 0
  | some e => prices.expr e

/-- The cost of declarations. -/
def declarators : List Declarator → Nat
  | [] => 0
  | d :: rest => prices.expr? d.value + declarators rest

/-- The cost of what a statement without statements inside does. -/
def deed : Deed → Nat
  | .returns value => prices.expr? value
  | .prints _ args => prices.exprs args
  | .declares _ ds => prices.declarators ds
  | .assigns _ change => prices.expr? change.value?
  | .evaluates e => prices.expr e
  | .breaks | .continues => 0

/-- The cost of a clause of a loop header, which may be missing. -/
def clause : Option Simple → Nat
  | none => 0
  | some s => prices.deed s.deed + 1

/-- The cost of a loop that may still repeat a number of times: the condition is tested once more
than that. -/
def loop (condition body step left : Nat) : Nat :=
  (left + 1) * (condition + body + step + 1)

mutual

/-- The cost of a statement. -/
def stmt : Stmt → Nat
  | .simple s => prices.deed s.deed + 1
  | .branch _ condition yes no => prices.expr condition + (block yes + other no) + 1
  | .whileLoop _ condition body =>
    loop (prices.expr condition) (block body) 0 prices.repetitions + 1
  | .forLoop _ start condition next body =>
    prices.clause start +
      loop (prices.expr? condition) (block body) (prices.clause next) prices.repetitions + 1
  | .block _ body => block body + 1

/-- The cost of the statements of a block. -/
def block : List Stmt → Nat
  | [] => 0
  | s :: rest => stmt s + block rest

/-- The cost of the other branch. -/
def other : Option (List Stmt) → Nat
  | none => 0
  | some body => block body

end

end Prices

/-- The prices of what may be called from calls that may nest no deeper than so. A call at the limit
is refused. -/
def Prices.within (functions : Table Function) (repetitions : Nat) : (left : Nat) → Prices
  | 0 => { call := 1, repetitions }
  | left + 1 =>
    let inner := within functions repetitions left
    { call := (functions.map fun entry => inner.block entry.2.body).sum + inner.call + 1
      repetitions }

namespace Prices

/-- A call covers the units that its depth needs. -/
theorem lt_within_call (functions : Table Function) (repetitions left : Nat) :
    left < (within functions repetitions left).call := by
  induction left with
  | zero => exact Nat.zero_lt_one
  | succ left ih =>
      simp only [within]
      omega

/-- The cost of the body of a function that may be called. -/
theorem block_lt_within_call {functions : Table Function} {name : String} {f : Function}
    (h : Table.get? name functions = some f) (repetitions left : Nat) :
    (within functions repetitions left).block f.body <
      (within functions repetitions (left + 1)).call := by
  have hle : (within functions repetitions left).block f.body ≤
      (functions.map fun entry =>
        (within functions repetitions left).block entry.2.body).sum :=
    List.le_sum_of_mem (List.mem_map.mpr ⟨(name, f), Table.mem_of_get?_eq_some h, rfl⟩)
  simp only [within]
  omega

end Prices

/-- The units of fuel that are enough for any call of any function of a program from outside. -/
def Program.enoughFuel (p : Program) (options : Options) : Nat :=
  (Prices.within p.functions options.maxIterations.toNat options.maxDepth.toNat).call

end ToyC
