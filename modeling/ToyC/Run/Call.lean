import ToyC.Run.Exec

/-!
Calls of functions, and the limits of a run. A call starts from a scope that holds
its parameters alone, so it sees nothing of its caller. Calls may nest to a limit,
which bounds the recursion here too.
-/

namespace ToyC

/-- How often one loop may repeat, and how deep calls may nest. A limit below zero acts like
zero. -/
structure Options where
  maxIterations : Int := 1000
  maxDepth : Int := 64
  deriving DecidableEq, Repr

/-- The scope that a function starts from. Missing arguments are zero and surplus ones are
dropped; of two parameters of one name the later gives the number. -/
def bindParams : List Param → List Number → Bindings → Bindings
  | [], _, bound => bound
  | param :: rest, args, bound =>
    bindParams rest args.tail (Table.insert param.name (args.headD 0) bound)

/-- What a function gives by the way its body ends. A jump meant for a loop has no effect. -/
def Ending.result (function : String) : Ending → Routine (Except Abort Number)
  | .completed => .done (.ok 0)
  | .returned value => .done (.ok value)
  | .broke | .continued => (Routine.record (.strayJump function)).bind fun _ => .done (.ok 0)
  | .aborted cause => .done (.error cause)

/-- Call a function where a number of calls may still nest. -/
def activate (functions : Table Function) (options : Options) :
    Nat → Function → List Number → Routine (Except Abort Number)
  | 0, f, _ => .done (.error (.tooDeep f.name options.maxDepth.toNat))
  | left + 1, f, args =>
    let env : Env :=
      { functions, call := activate functions options left, maxIterations := options.maxIterations }
    (Routine.perform (.enter f.name)).bind fun _ =>
      (execBlock env [bindParams f.signature.params args []] f.body).bind fun (_, ending) =>
        (Routine.perform .leave).bind fun _ => ending.result f.name

namespace Program

def env (p : Program) (options : Options) : Env :=
  { functions := p.functions
    call := activate p.functions options options.maxDepth.toNat
    maxIterations := options.maxIterations }

def call (p : Program) (options : Options) (name : String) (args : List Number) :
    Routine (Except Stop Number) :=
  match Table.get? name p.functions with
  | none => .done (.error (.mistake (.unknownFunction name)))
  | some f => ((p.env options).call f args).bind fun
    | .ok value => .done (.ok value)
    | .error cause => .done (.error (.abort cause))

end Program

end ToyC
