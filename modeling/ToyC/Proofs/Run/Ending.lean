import ToyC.Proofs.Run.Sight
import ToyC.Run.Exec

/-!
How statements end. A deed ends in ways of its kind, and a statement passes on the ending
of what stands inside it, except that a loop takes the `break` and the `continue` of its
body. So a statement can only end by a `continue` that is written in it and is not meant
for a loop inside it.
-/

namespace ToyC

open Routine Scope Execution

variable {env : Env} {scope : Scope}

/-! ### Deeds -/

/-- How a deed may end. -/
inductive Deed.Ends : Deed → Ending → Prop
  | completed {deed : Deed} : Ends deed .completed
  | aborted {deed : Deed} (cause : Abort) : Ends deed (.aborted cause)
  | returned (e : Option Expr) (a : Number) : Ends (.returns e) (.returned a)
  | broke : Ends .breaks .broke
  | continued : Ends .continues .continued

theorem withNumber_ends {P : Ending → Prop} (habort : ∀ cause, P (.aborted cause))
    {p : Routine (Except Abort Number)} {next : Number → Execution}
    (hnext : ∀ a, P (next a).outcome.2) : P (withNumber scope p next).outcome.2 := by
  unfold withNumber
  rw [outcome_bind]
  cases p.outcome with
  | ok a => exact hnext a
  | error cause => exact habort cause

theorem assign_ends (target : String) (change : Change) :
    (Deed.assigns target change).Ends (assign env scope target change).outcome.2 := by
  cases hfound : get? target scope <;> cases change <;> simp only [assign, hfound]
  case none.set e => exact withNumber_ends .aborted fun _ => .completed
  case none.update op e => exact withNumber_ends .aborted fun _ => .completed
  case some.set e =>
    exact withNumber_ends .aborted fun _ => withNumber_ends .aborted fun _ => .completed
  case some.update op e =>
    exact withNumber_ends .aborted fun _ => withNumber_ends .aborted fun _ => .completed
  all_goals exact .completed

theorem declare_ends (type : String) (all ds : List Declarator) :
    (Deed.declares type all).Ends (declare env scope ds).outcome.2 := by
  induction ds generalizing scope with
  | nil => exact .completed
  | cons d rest ih =>
      unfold declare
      split
      · exact ih
      · rename_i e _
        rw [outcome_bind]
        cases (evaluate env scope e).outcome with
        | ok a => exact ih
        | error cause => exact .aborted cause

theorem execDeed_ends (deed : Deed) : deed.Ends (execDeed env scope deed).outcome.2 := by
  cases deed with
  | returns value =>
      cases value with
      | none => exact .returned none 0
      | some e => exact withNumber_ends .aborted fun a => .returned _ a
  | prints fmt args =>
      simp only [execDeed]
      rw [outcome_bind]
      cases (evalValues env scope args).outcome with
      | error cause => exact .aborted cause
      | ok values =>
          dsimp only
          split
          · exact .aborted _
          · rw [outcome_bind]
            exact .completed
  | declares type ds => exact declare_ends type ds ds
  | assigns target change => exact assign_ends target change
  | evaluates e => exact withNumber_ends .aborted fun _ => .completed
  | breaks => exact .broke
  | continues => exact .continued

def Deed.isContinue : Deed → Bool
  | .continues => true
  | _ => false

/-- A deed that can be the last clause of a loop: it assigns, prints or calls. -/
def Deed.isStep : Deed → Bool
  | .assigns .. | .prints .. | .evaluates _ => true
  | _ => false

namespace Stmt

mutual

/-- Whether a statement holds a `continue` that is meant for the loop around it. One in the body of
a loop inside is meant for that loop; one in its header leaves that loop. -/
def continues : Stmt → Bool
  | .simple s => s.deed.isContinue
  | .branch _ _ yes no => continuesAmong yes || continuesOther no
  | .whileLoop .. => false
  | .forLoop _ start _ next _ => start.any (·.deed.isContinue) || next.any (·.deed.isContinue)
  | .block _ body => continuesAmong body

def continuesAmong : List Stmt → Bool
  | [] => false
  | stmt :: rest => stmt.continues || continuesAmong rest

def continuesOther : Option (List Stmt) → Bool
  | none => false
  | some body => continuesAmong body

end

end Stmt

/-- An ending other than by a `continue`. -/
inductive Ending.NotContinued : Ending → Prop
  | completed : NotContinued .completed
  | returned (a : Number) : NotContinued (.returned a)
  | broke : NotContinued .broke
  | aborted (cause : Abort) : NotContinued (.aborted cause)

/-- An ending that leaves neither a loop nor a function by a statement of its own. -/
inductive Ending.Inside : Ending → Prop
  | completed : Inside .completed
  | aborted (cause : Abort) : Inside (.aborted cause)

theorem Deed.Ends.inside {deed : Deed} {ending : Ending} (hends : deed.Ends ending)
    (h : deed.isStep = true) : ending.Inside := by
  cases hends with
  | completed => exact .completed
  | aborted cause => exact .aborted cause
  | _ => cases h

theorem Deed.Ends.notContinued {deed : Deed} {ending : Ending} (hends : deed.Ends ending)
    (h : deed.isContinue = false) : ending.NotContinued := by
  cases hends with
  | continued => cases h
  | _ => constructor

theorem execDeed_notContinued {deed : Deed} (h : deed.isContinue = false) :
    (execDeed env scope deed).outcome.2.NotContinued :=
  (execDeed_ends deed).notContinued h

theorem execClause_notContinued {clause : Option Simple}
    (h : clause.any (·.deed.isContinue) = false) :
    (execClause env scope clause).outcome.2.NotContinued := by
  cases clause with
  | none => exact .completed
  | some clause => exact execDeed_notContinued h

theorem execClause_inside {next : Option Simple} (hnext : next.all (·.deed.isStep) = true)
    (s : Scope) : (execClause env s next).outcome.2.Inside := by
  cases next with
  | none => exact .completed
  | some clause => exact (execDeed_ends clause.deed).inside hnext

theorem inChild_ends {P : Ending → Prop} {body : Scope → Execution}
    (h : P (body scope.child).outcome.2) : P (inChild scope body).outcome.2 := by
  unfold inChild
  rw [outcome_bind]
  exact h

/-- What follows where a statement completes; every other ending is passed on. -/
theorem followed_notContinued {p : Execution} {next : Scope × Ending → Execution}
    (h : p.outcome.2.NotContinued)
    (hpass : ∀ scope ending, ending.NotContinued → (next (scope, ending)).outcome.2.NotContinued) :
    (p.bind next).outcome.2.NotContinued := by
  rw [outcome_bind]
  exact hpass p.outcome.1 p.outcome.2 h

theorem reportRunaway_notContinued (src : String) :
    (reportRunaway env src scope).outcome.2.NotContinued := by
  unfold reportRunaway
  rw [outcome_bind]
  split
  · rw [outcome_bind]
    exact .completed
  · exact .aborted _

/-- A loop takes a `continue` of its body, so only its step can leave it by one. -/
theorem repeatLoop_notContinued {src : String} {condition : Scope → Routine (Except Abort Number)}
    {body step : Scope → Execution} (hstep : ∀ inner, (step inner).outcome.2.NotContinued)
    (left : Nat) : (repeatLoop env src condition body step left scope).outcome.2.NotContinued := by
  induction left generalizing scope with
  | zero =>
      unfold repeatLoop
      refine withNumber_ends .aborted fun c => ?_
      split
      · exact .completed
      · exact reportRunaway_notContinued src
  | succ left ih =>
      unfold repeatLoop
      refine withNumber_ends .aborted fun c => ?_
      split
      · exact .completed
      · dsimp only
        rw [outcome_bind]
        match (inChild scope body).outcome with
        | (after, .completed) | (after, .continued) =>
            refine followed_notContinued (hstep after) fun last ending hlast => ?_
            cases hlast with
            | completed => exact ih
            | _ => constructor
        | (after, .returned a) | (after, .broke) | (after, .aborted cause) => constructor

mutual

/-- Without a `continue` of its own a statement does not end by one. -/
theorem exec_notContinued : ∀ (stmt : Stmt) (scope : Scope), stmt.continues = false →
    (exec env scope stmt).outcome.2.NotContinued
  | .simple clause, scope, h => by
      simp only [exec]
      exact execDeed_notContinued h
  | .branch src condition yes no, scope, h => by
      obtain ⟨hyes, hno⟩ := Bool.or_eq_false_iff.mp h
      simp only [exec]
      refine withNumber_ends .aborted fun c => ?_
      split
      · exact inChild_ends (execBlock_notContinued yes scope.child hyes)
      · exact execOther_notContinued no scope hno
  | .whileLoop src condition body, scope, h => by
      simp only [exec]
      refine repeatLoop_notContinued ?_ _
      exact fun inner => .completed
  | .forLoop src start condition next body, scope, h => by
      obtain ⟨hstart, hnext⟩ := Bool.or_eq_false_iff.mp h
      simp only [exec]
      refine inChild_ends
        (followed_notContinued (execClause_notContinued hstart) fun inner ending hfirst => ?_)
      cases hfirst with
      | completed => exact repeatLoop_notContinued (fun _ => execClause_notContinued hnext) _
      | _ => constructor
  | .block src body, scope, h => by
      simp only [exec]
      exact inChild_ends (execBlock_notContinued body scope.child h)

theorem execBlock_notContinued : ∀ (body : List Stmt) (scope : Scope),
    Stmt.continuesAmong body = false → (execBlock env scope body).outcome.2.NotContinued
  | [], scope, h => by
      simp only [execBlock]
      exact .completed
  | stmt :: rest, scope, h => by
      obtain ⟨hstmt, hrest⟩ := Bool.or_eq_false_iff.mp h
      simp only [execBlock]
      refine followed_notContinued (exec_notContinued stmt scope hstmt)
        fun inner ending hfirst => ?_
      cases hfirst with
      | completed => exact execBlock_notContinued rest inner hrest
      | _ => constructor

theorem execOther_notContinued : ∀ (body : Option (List Stmt)) (scope : Scope),
    Stmt.continuesOther body = false → (execOther env scope body).outcome.2.NotContinued
  | none, scope, h => by
      simp only [execOther]
      exact .completed
  | some body, scope, h => by
      simp only [execOther]
      exact inChild_ends (execBlock_notContinued body scope.child h)

end

end ToyC
