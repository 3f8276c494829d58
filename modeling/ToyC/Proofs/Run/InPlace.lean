import ToyC.Proofs.Run.ScopeTree
import ToyC.Run.Call

/-!
Interpretation in place and on fuel. Here all scopes of a run live side by side in
one tree, and a declaration or an assignment changes the scope that it concerns
where it is: a block makes a scope inside the one it stands in, and a call makes one
with nothing around it. Nothing but the interpreter itself keeps it from changing a
scope of its callers. Scopes that are left stay in the tree.

Loops count their iterations and calls their depth upwards, against the limits as
they are given. What bounds the recursion is fuel: a unit is spent on every
statement, every node of an expression, every iteration and every call, and where
there is none left the interpretation is lost.
-/

namespace ToyC

/-- What interpretation in place works on. -/
structure Store where
  scopes : ScopeTree
  fuel : Nat

/-- An interpretation that reads and changes a store, and ends without a value where it runs out of
fuel. -/
abbrev InPlace (α : Type) := StateT Store (OptionT Routine) α

namespace InPlace

/-- Do what a routine does. -/
def lift {α : Type} (p : Routine α) : InPlace α :=
  StateT.lift (OptionT.lift p)

/-- Spend a unit of fuel, if there is any. -/
def spend : InPlace Unit := do
  match (← get).fuel with
  | 0 => failure
  | left + 1 => modify fun s => { s with fuel := left }

/-- What statements and expressions need to know. -/
structure Env where
  functions : Table Function
  call : Function → List Number → InPlace (Except Abort Number)
  maxIterations : Int

/-! ### Expressions -/

/-- An evaluation that has nothing to do with scopes. -/
def unscoped {α : Type} (p : Evaluation α) : ExceptT Stop InPlace α :=
  .mk (lift p.run)

/-- What a call of a function gives. -/
def ofCall {α : Type} (p : InPlace (Except Abort α)) : ExceptT Stop InPlace α :=
  .mk do
    match ← p with
    | .ok value => return .ok value
    | .error cause => return .error (.abort cause)

/-- Absorb a mistake: record a note and go on with zero. -/
def absorb (note : EvalError → Note) (p : ExceptT Stop InPlace Value) :
    InPlace (Except Abort Value) := do
  match ← p.run with
  | .ok value => return .ok value
  | .error (.mistake cause) => do
    lift (Routine.record (note cause))
    return .ok (.number 0)
  | .error (.abort cause) => return .error cause

/-- The number of an expression; mistakes and text are worth zero. -/
def number (p : ExceptT Stop InPlace Value) : InPlace (Except Abort Number) := do
  match ← absorb .degraded p with
  | .ok (.number a) => return .ok a
  | .ok (.text _) => return .ok 0
  | .error cause => return .error cause

mutual

/-- The value of an expression in a scope. -/
def eval (env : Env) (i : Nat) (e : Expr) : ExceptT Stop InPlace Value := do
  ExceptT.lift spend
  match e with
  | .literal _ value => return value
  | .name _ ident =>
    match (← getThe Store).scopes.get i ident with
    | .ok a => return .number a
    | .error cause => throw (.mistake cause)
  | .unary _ op e =>
    let a ← unscoped (Evaluation.operand (← eval env i e))
    return .number (a.applyUnary op)
  | .binary _ .or left right =>
    let a ← unscoped (Evaluation.operand (← eval env i left))
    if a.isTrue then return .number 1
    else
      let b ← unscoped (Evaluation.operand (← eval env i right))
      return .number (.ofBool b.isTrue)
  | .binary _ .and left right =>
    let a ← unscoped (Evaluation.operand (← eval env i left))
    if a.isTrue then
      let b ← unscoped (Evaluation.operand (← eval env i right))
      return .number (.ofBool b.isTrue)
    else return .number 0
  | .binary _ op left right =>
    let a ← unscoped (Evaluation.operand (← eval env i left))
    let b ← unscoped (Evaluation.operand (← eval env i right))
    return .number (← unscoped (Evaluation.ofResult (Number.operate op a b)))
  | .call _ func args =>
    match Table.get? func env.functions with
    | some f =>
      let values ← evalArgs env i args
      return .number (← ofCall (env.call f values))
    | none =>
      match Builtin.ofName? func with
      | some builtin =>
        if args.length ≠ builtin.arity then
          throw (.mistake (.wrongArity builtin.name builtin.arity args.length))
        else
          let values ← evalArgs env i args
          return .number (← unscoped (Evaluation.ofResult (builtin.applyNumbers values)))
      | none => throw (.mistake (.unknownFunction func))
  | .invalid text => throw (.mistake (.unreadable text))

/-- The numbers of arguments, left to right. -/
def evalArgs (env : Env) (i : Nat) : List Expr → ExceptT Stop InPlace (List Number)
  | [] => pure []
  | arg :: rest => do
    let a ← ofCall (number (eval env i arg))
    let more ← evalArgs env i rest
    return a :: more

end

/-- The number of an expression in a statement. -/
def evaluate (env : Env) (i : Nat) (e : Expr) : InPlace (Except Abort Number) :=
  number (eval env i e)

/-- The value of an expression that is to be printed. -/
def evalArgument (env : Env) (i : Nat) (e : Expr) : InPlace (Except Abort Value) :=
  absorb .degradedArgument (eval env i e)

/-- The values to print. -/
def evalValues (env : Env) (i : Nat) : List Expr → InPlace (Except Abort (List Value))
  | [] => return .ok []
  | e :: rest => do
    match ← evalArgument env i e with
    | .error cause => return .error cause
    | .ok value =>
      match ← evalValues env i rest with
      | .error cause => return .error cause
      | .ok more => return .ok (value :: more)

/-! ### Statements -/

/-- Go on with a number, unless there is none. -/
def withNumber (p : InPlace (Except Abort Number)) (next : Number → InPlace Ending) :
    InPlace Ending := do
  match ← p with
  | .ok a => next a
  | .error cause => return .aborted cause

/-- Go on behind a yield point, unless the routine is cancelled there. -/
def afterYield (next : Unit → InPlace Ending) : InPlace Ending := do
  if ← lift Routine.yieldPoint then return .aborted .cancelled else next ()

/-- Run the rest of a body in a new scope. -/
def inScope (make : ScopeTree → ScopeTree × Nat) (body : Nat → InPlace Ending) :
    InPlace Ending := do
  let i ← modifyGet fun s => ((make s.scopes).2, { s with scopes := (make s.scopes).1 })
  body i

/-- Run a block in a new scope inside a scope. -/
def inChild (i : Nat) (body : Nat → InPlace Ending) : InPlace Ending :=
  inScope (ScopeTree.child i) body

/-- Run the body of a function in a new scope with nothing around it. -/
def inFresh (body : Nat → InPlace Ending) : InPlace Ending :=
  inScope ScopeTree.fresh body

/-- Change the scopes. -/
def modifyScopes (change : ScopeTree → ScopeTree) : InPlace Unit :=
  modify fun s => { s with scopes := change s.scopes }

def define (i : Nat) (name : String) (value : Number) : InPlace Unit :=
  modifyScopes (ScopeTree.define i name value)

/-- Store a result in a variable, if the variable is declared by now. -/
def store (i : Nat) (target : String) (result : Number → Routine (Except Abort Number)) :
    InPlace Ending := do
  match (← get).scopes.get i target with
  | .error _ => do
    lift (Routine.record (.undeclared target))
    return .completed
  | .ok current => withNumber (lift (result current)) fun a => do
    modifyScopes fun tree => (tree.set i target a).1
    return .completed

/-- Change a variable. The value is evaluated first. -/
def assign (env : Env) (i : Nat) (target : String) : Change → InPlace Ending
  | .set e => withNumber (evaluate env i e) fun a => store i target fun _ => .done (.ok a)
  | .update op e => withNumber (evaluate env i e) fun a =>
      store i target fun current => updated op current a
  | .increment => store i target fun current => .done (.ok current.increment)
  | .decrement => store i target fun current => .done (.ok current.decrement)

/-- Declare names one by one. -/
def declare (env : Env) (i : Nat) : List Declarator → InPlace Ending
  | [] => return .completed
  | d :: rest =>
    match d.value with
    | none => do
      define i d.name 0
      declare env i rest
    | some e => withNumber (evaluate env i e) fun a => do
      define i d.name a
      declare env i rest

/-- Execute a statement without statements inside. -/
def execDeed (env : Env) (i : Nat) : Deed → InPlace Ending
  | .returns none => return .returned 0
  | .returns (some e) => withNumber (evaluate env i e) fun a => return .returned a
  | .prints fmt args => do
    match ← evalValues env i args with
    | .error cause => return .aborted cause
    | .ok values =>
      match Printf.format fmt values with
      | .error cause => return .aborted (.fault cause)
      | .ok text => do
        lift (Routine.emit text)
        return .completed
  | .declares _ declarators => declare env i declarators
  | .assigns target change => assign env i target change
  | .evaluates e => withNumber (evaluate env i e) fun _ => return .completed
  | .breaks => return .broke
  | .continues => return .continued

/-- Execute a clause of a loop header, which may be missing. -/
def execClause (env : Env) (i : Nat) : Option Simple → InPlace Ending
  | none => return .completed
  | some clause => do
    spend
    execDeed env i clause.deed

/-- Report a loop that may not repeat again, and leave it. -/
def reportRunaway (env : Env) (src : String) : InPlace Ending := do
  lift (Routine.record (.runawayLoop src env.maxIterations))
  match runawayMessage env.maxIterations with
  | .ok text => do
    lift (Routine.emit text)
    return .completed
  | .error cause => return .aborted (.fault cause)

/-- Repeat a body, each time in a new scope inside the scope of the loop, behind so many
iterations. There are no more than so many units of fuel. -/
def repeatLoop (env : Env) (src : String) (condition : InPlace (Except Abort Number))
    (body : Nat → InPlace Ending) (step : InPlace Ending) (i : Nat) :
    (units iterations : Nat) → InPlace Ending
  | 0, _ => failure
  | units + 1, iterations => do
    spend
    withNumber condition fun c => do
      if c.isZero then return .completed
      else if env.maxIterations ≤ iterations then reportRunaway env src
      else
        match ← inChild i body with
        | .completed | .continued =>
          match ← step with
          | .completed =>
            afterYield fun _ => repeatLoop env src condition body step i units (iterations + 1)
          | stopped => return stopped
        | .broke => return .completed
        | stopped => return stopped

/-- Start a loop. Every iteration spends a unit, so there are no more than there are units. -/
def startLoop (env : Env) (src : String) (condition : InPlace (Except Abort Number))
    (body : Nat → InPlace Ending) (step : InPlace Ending) (i : Nat) : InPlace Ending := do
  repeatLoop env src condition body step i (← get).fuel 0

mutual

/-- Execute a statement in a scope. -/
def exec (env : Env) (i : Nat) (s : Stmt) : InPlace Ending := do
  spend
  match s with
  | .simple s => execDeed env i s.deed
  | .branch _ condition yes no =>
    withNumber (evaluate env i condition) fun c =>
      if c.isTrue then inChild i fun j => execBlock env j yes
      else execOther env i no
  | .whileLoop src condition body =>
    startLoop env src (evaluate env i condition) (fun j => execBlock env j body)
      (return .completed) i
  | .forLoop src start condition next body =>
    inChild i fun j => do
      match ← execClause env j start with
      | .completed =>
        startLoop env src
          (match condition with
            | none => return .ok 1
            | some e => evaluate env j e)
          (fun k => execBlock env k body) (execClause env j next) j
      | stopped => return stopped
  | .block _ body => inChild i fun j => execBlock env j body

/-- Execute the statements of a block in a scope, up to the first that does not complete. -/
def execBlock (env : Env) (i : Nat) : List Stmt → InPlace Ending
  | [] => return .completed
  | stmt :: rest => do
    match ← exec env i stmt with
    | .completed => afterYield fun _ => execBlock env i rest
    | stopped => return stopped

/-- Execute the other branch, if there is one. -/
def execOther (env : Env) (i : Nat) : Option (List Stmt) → InPlace Ending
  | none => return .completed
  | some body => inChild i fun j => execBlock env j body

end

/-! ### Calls -/

/-- Bind the parameters of a function in a scope. -/
def bindParams (i : Nat) : List Param → List Number → InPlace Unit
  | [], _ => return ()
  | param :: rest, args => do
    define i param.name (args.headD 0)
    bindParams i rest args.tail

/-- Call a function where so many calls nest. There are no more than so many units of fuel. -/
def activate (functions : Table Function) (options : Options) :
    (units depth : Nat) → Function → List Number → InPlace (Except Abort Number)
  | 0, _, _, _ => failure
  | units + 1, depth, f, args => do
    spend
    if options.maxDepth ≤ depth then return .error (.tooDeep f.name depth)
    else
      let env : Env :=
        { functions
          call := activate functions options units (depth + 1)
          maxIterations := options.maxIterations }
      lift (Routine.perform (.enter f.name))
      let ending ← inFresh fun i => do
        bindParams i f.signature.params args
        execBlock env i f.body
      lift (Routine.perform .leave)
      lift (ending.result f.name)

/-- What the body of a function needs to know where so many calls nest. -/
def envAt (functions : Table Function) (options : Options) (units depth : Nat) : Env :=
  { functions
    call := activate functions options units depth
    maxIterations := options.maxIterations }

/-- Call a function of a program by its name. Every call spends a unit, so no more of them nest
than there are units. -/
def call (p : Program) (options : Options) (name : String) (args : List Number) :
    InPlace (Except Stop Number) :=
  match Table.get? name p.functions with
  | none => return .error (.mistake (.unknownFunction name))
  | some f => do
    match ← (envAt p.functions options (← get).fuel 0).call f args with
    | .ok value => return .ok value
    | .error cause => return .error (.abort cause)

end InPlace

end ToyC
