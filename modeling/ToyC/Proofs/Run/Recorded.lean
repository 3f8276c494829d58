import ToyC.Proofs.Run.Replay
import ToyC.Run.Exec

/-!
Execution that is recorded. Beside the scope and the ending a recorded execution gives the
assignments that it makes, in order: which binding is given which number. It does what the
execution does, statement by statement, and without the record it is the execution.
-/

namespace ToyC

/-- An execution with the assignments that it makes. -/
abbrev Recorded := Routine ((Scope × Ending) × List Assigned)

namespace Recorded

/-- The execution without the record. -/
def erase (p : Recorded) : Execution :=
  p.bind fun after => .done after.1

/-- An execution that assigns nothing. -/
def quiet (p : Execution) : Recorded :=
  p.bind fun after => .done (after, [])

/-- One execution after another, with the assignments of both. -/
def andThen (p : Recorded) (next : Scope × Ending → Recorded) : Recorded :=
  p.bind fun first => (next first.1).bind fun last => .done (last.1, first.2 ++ last.2)

/-- Go on with a number, unless there is none. -/
def withNumber (scope : Scope) (p : Routine (Except Abort Number)) (next : Number → Recorded) :
    Recorded :=
  p.bind fun
    | .ok a => next a
    | .error cause => .done ((scope, .aborted cause), [])

/-- Go on behind a yield point, unless the routine is cancelled there. -/
def afterYield (scope : Scope) (next : Unit → Recorded) : Recorded :=
  Routine.yieldPoint.bind fun cancelled =>
    if cancelled then .done ((scope, .aborted .cancelled), []) else next ()

/-- Run a block in a scope of its own, which ends with it. -/
def inChild (scope : Scope) (body : Scope → Recorded) : Recorded :=
  (body scope.child).bind fun after => .done ((after.1.1.parent, after.1.2), after.2)

/-- Change a variable, and record which binding is given which number. -/
def assign (env : Env) (scope : Scope) (target : String) (change : Change) : Recorded :=
  let store (current? : Option Number) (result : Number → Routine (Except Abort Number)) :
      Recorded :=
    match current? with
    | none =>
      (Routine.record (.undeclared target)).bind fun _ => .done ((scope, .completed), [])
    | some current =>
      withNumber scope (result current) fun a =>
        .done ((scope.set target a, .completed),
          (Scope.binder? target scope).toList.map (⟨·, target, a⟩))
  let current? := Scope.get? target scope
  match change with
  | .set e => withNumber scope (evaluate env scope e) fun a =>
      store current? fun _ => .done (.ok a)
  | .update op e => withNumber scope (evaluate env scope e) fun a =>
      store current? fun current => updated op current a
  | .increment => store current? fun current => .done (.ok current.increment)
  | .decrement => store current? fun current => .done (.ok current.decrement)

def execDeed (env : Env) (scope : Scope) : Deed → Recorded
  | .assigns target change => assign env scope target change
  | deed => quiet (ToyC.execDeed env scope deed)

def execClause (env : Env) (scope : Scope) : Option Simple → Recorded
  | none => .done ((scope, .completed), [])
  | some clause => execDeed env scope clause.deed

def repeatLoop (env : Env) (src : String) (condition : Scope → Routine (Except Abort Number))
    (body step : Scope → Recorded) : Nat → Scope → Recorded
  | left, scope =>
    withNumber scope (condition scope) fun c =>
      if c.isZero then .done ((scope, .completed), [])
      else
        match left with
        | 0 => quiet (reportRunaway env src scope)
        | left + 1 =>
          (inChild scope body).andThen fun
            | (scope, .completed) | (scope, .continued) =>
              (step scope).andThen fun
                | (scope, .completed) =>
                  afterYield scope fun _ => repeatLoop env src condition body step left scope
                | stopped => .done (stopped, [])
            | (scope, .broke) => .done ((scope, .completed), [])
            | stopped => .done (stopped, [])

mutual

/-- Execute a statement, and record the assignments that it makes. -/
def exec (env : Env) (scope : Scope) : Stmt → Recorded
  | .simple s => execDeed env scope s.deed
  | .branch _ condition yes no =>
    withNumber scope (evaluate env scope condition) fun c =>
      if c.isTrue then inChild scope fun inner => execBlock env inner yes
      else execOther env scope no
  | .whileLoop src condition body =>
    repeatLoop env src (fun inner => evaluate env inner condition)
      (fun inner => execBlock env inner body) (fun inner => .done ((inner, .completed), []))
      env.maxIterations.toNat scope
  | .forLoop src start condition next body =>
    inChild scope fun inner =>
      (execClause env inner start).andThen fun
        | (inner, .completed) =>
          repeatLoop env src
            (fun inner =>
              match condition with
              | none => .done (.ok 1)
              | some e => evaluate env inner e)
            (fun inner => execBlock env inner body) (fun inner => execClause env inner next)
            env.maxIterations.toNat inner
        | stopped => .done (stopped, [])
  | .block _ body => inChild scope fun inner => execBlock env inner body

def execBlock (env : Env) (scope : Scope) : List Stmt → Recorded
  | [] => .done ((scope, .completed), [])
  | stmt :: rest =>
    (exec env scope stmt).andThen fun
      | (scope, .completed) => afterYield scope fun _ => execBlock env scope rest
      | stopped => .done (stopped, [])

def execOther (env : Env) (scope : Scope) : Option (List Stmt) → Recorded
  | none => .done ((scope, .completed), [])
  | some body => inChild scope fun inner => execBlock env inner body

end

/-! ### The record does not change the execution -/

theorem erase_done (after : Scope × Ending) (log : List Assigned) :
    erase (.done (after, log)) = .done after := rfl

theorem erase_quiet (p : Execution) : (quiet p).erase = p := by
  rw [erase, quiet, Routine.bind_assoc]
  exact Routine.bind_done p

theorem erase_andThen (p : Recorded) (next : Scope × Ending → Recorded) :
    (p.andThen next).erase = p.erase.bind fun after => (next after).erase := by
  simp only [erase, andThen, Routine.bind_assoc, Routine.done_bind]

theorem erase_withNumber (scope : Scope) (p : Routine (Except Abort Number))
    (next : Number → Recorded) : (withNumber scope p next).erase =
      Execution.withNumber scope p fun a => (next a).erase := by
  rw [erase, withNumber, Routine.bind_assoc]
  congr
  funext result
  cases result <;> rfl

theorem erase_afterYield (scope : Scope) (next : Unit → Recorded) :
    (afterYield scope next).erase = Execution.afterYield scope fun u => (next u).erase := by
  rw [erase, afterYield, Routine.bind_assoc]
  congr
  funext cancelled
  cases cancelled <;> rfl

theorem erase_inChild (scope : Scope) (body : Scope → Recorded) :
    (inChild scope body).erase = Execution.inChild scope fun inner => (body inner).erase := by
  simp only [erase, inChild, Execution.inChild, Routine.bind_assoc, Routine.done_bind]

theorem erase_assign (env : Env) (scope : Scope) (target : String) (change : Change) :
    (assign env scope target change).erase = ToyC.assign env scope target change := by
  cases hfound : Scope.get? target scope <;> cases change <;>
    simp only [assign, ToyC.assign, hfound, erase_withNumber] <;> rfl

theorem erase_execDeed (env : Env) (scope : Scope) (deed : Deed) :
    (execDeed env scope deed).erase = ToyC.execDeed env scope deed := by
  cases deed with
  | assigns target change => exact erase_assign env scope target change
  | _ => exact erase_quiet _

theorem erase_execClause (env : Env) (scope : Scope) (clause : Option Simple) :
    (execClause env scope clause).erase = ToyC.execClause env scope clause := by
  cases clause with
  | none => rfl
  | some clause => exact erase_execDeed env scope clause.deed

/-- A loop records nothing of its own. -/
theorem erase_repeatLoop {env : Env} {src : String}
    {condition : Scope → Routine (Except Abort Number)} {body step : Scope → Recorded}
    {body' step' : Scope → Execution} (hbody : ∀ s, (body s).erase = body' s)
    (hstep : ∀ s, (step s).erase = step' s) (left : Nat) (scope : Scope) :
    (repeatLoop env src condition body step left scope).erase =
      ToyC.repeatLoop env src condition body' step' left scope := by
  induction left generalizing scope with
  | zero =>
      unfold repeatLoop ToyC.repeatLoop
      rw [erase_withNumber]
      congr
      funext c
      split
      · rfl
      · exact erase_quiet _
  | succ left ih =>
      unfold repeatLoop ToyC.repeatLoop
      rw [erase_withNumber]
      congr
      funext c
      split
      · rfl
      · dsimp only
        rw [erase_andThen, erase_inChild]
        simp only [hbody]
        congr
        funext ⟨after, ending⟩
        cases ending with
        | completed | continued =>
            dsimp only
            rw [erase_andThen, hstep]
            congr
            funext ⟨last, ending⟩
            cases ending with
            | completed =>
                dsimp only
                rw [erase_afterYield, ih]
            | _ => rfl
        | _ => rfl

mutual

/-- Without its record, a recorded execution is the execution. -/
theorem erase_exec : ∀ (env : Env) (scope : Scope) (stmt : Stmt),
    (exec env scope stmt).erase = ToyC.exec env scope stmt
  | env, scope, .simple clause => by
      simp only [exec, ToyC.exec]
      exact erase_execDeed env scope clause.deed
  | env, scope, .branch src condition yes no => by
      simp only [exec, ToyC.exec, erase_withNumber]
      congr
      funext c
      split
      · rw [erase_inChild]
        simp only [erase_execBlock]
      · exact erase_execOther env scope no
  | env, scope, .whileLoop src condition body => by
      simp only [exec, ToyC.exec]
      exact erase_repeatLoop (fun s => erase_execBlock env s body) (fun _ => rfl) _ scope
  | env, scope, .forLoop src start condition next body => by
      simp only [exec, ToyC.exec, erase_inChild, erase_andThen, erase_execClause]
      congr
      funext inner
      congr
      funext ⟨after, ending⟩
      cases ending with
      | completed =>
          exact erase_repeatLoop (fun s => erase_execBlock env s body)
            (fun s => erase_execClause env s next) _ after
      | _ => rfl
  | env, scope, .block src body => by
      simp only [exec, ToyC.exec, erase_inChild, erase_execBlock]

theorem erase_execBlock : ∀ (env : Env) (scope : Scope) (body : List Stmt),
    (execBlock env scope body).erase = ToyC.execBlock env scope body
  | env, scope, [] => by
      simp only [execBlock, ToyC.execBlock, erase_done]
  | env, scope, stmt :: rest => by
      simp only [execBlock, ToyC.execBlock, erase_andThen, erase_exec]
      congr
      funext ⟨after, ending⟩
      cases ending with
      | completed =>
          dsimp only
          rw [erase_afterYield]
          simp only [erase_execBlock]
      | _ => rfl

theorem erase_execOther : ∀ (env : Env) (scope : Scope) (body : Option (List Stmt)),
    (execOther env scope body).erase = ToyC.execOther env scope body
  | env, scope, none => by
      simp only [execOther, ToyC.execOther, erase_done]
  | env, scope, some body => by
      simp only [execOther, ToyC.execOther, erase_inChild, erase_execBlock]

end

end Recorded

end ToyC
