import ToyC.Proofs.Run.Lockstep
import ToyC.Run.Exec

/-!
What execution sees of the scopes around it. Two chains may hold their bindings in
different places: as long as every name stands for the same number in both, and still does
after every assignment, no statement inside tells them apart. The blocks that it opens and
the names that it declares are then the same on both sides, inside the two chains.
-/

namespace ToyC

open Routine

namespace Scope

/-- In related scopes a name stands for the same number, and an assignment keeps them related. -/
structure Indistinct (R : Scope → Scope → Prop) : Prop where
  reads {s t : Scope} (h : R s t) (name : String) : get? name s = get? name t
  set {s t : Scope} (h : R s t) (name : String) (value : Number) :
    R (set name value s) (set name value t)

/-- The same bindings `n` deep, inside related scopes. -/
inductive Under (R : Scope → Scope → Prop) : Nat → Scope → Scope → Prop
  | outer {s t : Scope} (h : R s t) : Under R 0 s t
  | inner {n : Nat} {s t : Scope} (own : Bindings) (h : Under R n s t) :
      Under R (n + 1) (own :: s) (own :: t)

variable {R : Scope → Scope → Prop} {n : Nat} {s t : Scope}

namespace Under

theorem reads (hR : Indistinct R) (h : Under R n s t) (name : String) :
    get? name s = get? name t := by
  induction h with
  | outer h => exact hR.reads h name
  | inner own _ ih => simp only [get?, ih]

theorem set (hR : Indistinct R) (h : Under R n s t) (name : String) (value : Number) :
    Under R n (Scope.set name value s) (Scope.set name value t) := by
  induction h with
  | outer h => exact .outer (hR.set h name value)
  | inner own h ih =>
      simp only [Scope.set]
      split
      · exact .inner _ h
      · exact .inner own ih

theorem indistinct (hR : Indistinct R) (n : Nat) : Indistinct (Under R n) :=
  ⟨reads hR, set hR⟩

theorem outside (h : Under R 0 s t) : R s t := by
  cases h with
  | outer h => exact h

theorem child (h : Under R n s t) : Under R (n + 1) s.child t.child :=
  .inner [] h

theorem parent (h : Under R (n + 1) s t) : Under R n s.parent t.parent := by
  cases h with
  | inner own h => exact h

/-- A declaration binds in the innermost scope, which is the same on both sides. -/
theorem define (h : Under R (n + 1) s t) (name : String) (value : Number) :
    Under R (n + 1) (Scope.define name value s) (Scope.define name value t) := by
  cases h with
  | inner own h => exact .inner _ h

end Under

end Scope

open Scope Execution

variable {env : Env} {R : Scope → Scope → Prop} {n : Nat} {s t : Scope}

/-! ### Expressions -/

mutual

/-- An expression sees no more of a scope than what its names stand for. -/
theorem eval_congr (h : ∀ name, get? name s = get? name t) :
    ∀ e : Expr, eval env s e = eval env t e
  | .literal .. | .invalid _ => by simp only [eval]
  | .name pos ident => by simp only [eval, h]
  | .unary pos op e => by simp only [eval, eval_congr h e]
  | .binary pos op left right => by
      cases op <;> simp only [eval, eval_congr h left, eval_congr h right]
  | .call pos func args => by simp only [eval, evalArgs_congr h args]

theorem evalArgs_congr (h : ∀ name, get? name s = get? name t) :
    ∀ args : List Expr, evalArgs env s args = evalArgs env t args
  | [] => by simp only [evalArgs]
  | arg :: rest => by simp only [evalArgs, eval_congr h arg, evalArgs_congr h rest]

end

theorem evaluate_congr (h : ∀ name, get? name s = get? name t) (e : Expr) :
    evaluate env s e = evaluate env t e := by
  rw [evaluate, evaluate, eval_congr h e]

theorem evalValues_congr (h : ∀ name, get? name s = get? name t) (es : List Expr) :
    evalValues env s es = evalValues env t es := by
  induction es with
  | nil => simp only [evalValues]
  | cons e rest ih => simp only [evalValues, eval_congr h e, ih]

/-! ### Executions that end alike -/

/-- Two executions that leave related scopes and end in the same way. -/
structure Ends (R : Scope → Scope → Prop) (a b : Scope × Ending) : Prop where
  scopes : R a.1 b.1
  ending : a.2 = b.2

/-- Executions in lockstep that end alike. -/
abbrev Alike (R : Scope → Scope → Prop) (p q : Execution) : Prop :=
  Lockstep (Ends R) p q

namespace Alike

theorem ended (h : R s t) (ending : Ending) : Alike R (.done (s, ending)) (.done (t, ending)) :=
  .done ⟨h, rfl⟩

theorem behind {α : Type} (p : Routine α) {next next' : α → Execution}
    (hnext : ∀ a, Alike R (next a) (next' a)) : Alike R (p.bind next) (p.bind next') :=
  Lockstep.behind p hnext

theorem withNumber (h : R s t) (p : Routine (Except Abort Number)) {next next' : Number → Execution}
    (hnext : ∀ a, Alike R (next a) (next' a)) :
    Alike R (Execution.withNumber s p next) (Execution.withNumber t p next') := by
  refine .behind p fun result => ?_
  cases result with
  | ok a => exact hnext a
  | error cause => exact ended h _

theorem afterYield (h : R s t) {next next' : Unit → Execution}
    (hnext : Alike R (next ()) (next' ())) :
    Alike R (Execution.afterYield s next) (Execution.afterYield t next') := by
  refine .behind yieldPoint fun cancelled => ?_
  cases cancelled with
  | true => exact ended h _
  | false => exact hnext

/-- What follows a statement that completes; every other ending is passed on. -/
theorem followed {p q : Execution} (h : Alike R p q) {next next' : Scope × Ending → Execution}
    (hnext : ∀ s t ending, R s t → Alike R (next (s, ending)) (next' (t, ending))) :
    Alike R (p.bind next) (q.bind next') := by
  refine Lockstep.bind h ?_
  rintro ⟨s, ending⟩ ⟨t, ending'⟩ ⟨hst, hending⟩
  cases hending
  exact hnext s t ending hst

theorem inChild (h : Under R n s t) {body body' : Scope → Execution}
    (hbody : ∀ s t, Under R (n + 1) s t → Alike (Under R (n + 1)) (body s) (body' t)) :
    Alike (Under R n) (Execution.inChild s body) (Execution.inChild t body') := by
  refine Lockstep.bind (hbody _ _ h.child) ?_
  rintro ⟨s, ending⟩ ⟨t, ending'⟩ ⟨hst, hending⟩
  exact .done ⟨hst.parent, hending⟩

end Alike

/-! ### Statements -/

theorem assign_alike (hR : Indistinct R) (h : R s t) (target : String) (change : Change) :
    Alike R (assign env s target change) (assign env t target change) := by
  have hundeclared : Alike R
      ((Routine.record (.undeclared target)).bind fun _ => .done (s, Ending.completed))
      ((Routine.record (.undeclared target)).bind fun _ => .done (t, Ending.completed)) :=
    .behind _ fun _ => .ended h _
  have hstored : ∀ p : Routine (Except Abort Number), Alike R
      (withNumber s p fun a => .done (s.set target a, .completed))
      (withNumber t p fun a => .done (t.set target a, .completed)) :=
    fun p => .withNumber h p fun a => .ended (hR.set h target a) _
  have hreads := hR.reads h
  cases hfound : get? target s <;> cases change <;>
    simp only [assign, ← hreads target, hfound, evaluate_congr hreads]
  case none.set e => exact .withNumber h _ fun _ => hundeclared
  case none.update op e => exact .withNumber h _ fun _ => hundeclared
  case none.increment => exact hundeclared
  case none.decrement => exact hundeclared
  case some.set e => exact .withNumber h _ fun _ => hstored _
  case some.update op e => exact .withNumber h _ fun _ => hstored _
  case some.increment => exact hstored _
  case some.decrement => exact hstored _

theorem declare_alike (hR : Indistinct R) (h : Under R (n + 1) s t) (ds : List Declarator) :
    Alike (Under R (n + 1)) (declare env s ds) (declare env t ds) := by
  induction ds generalizing s t with
  | nil => exact .ended h _
  | cons d rest ih =>
      unfold declare
      split
      · exact ih (h.define d.name 0)
      · rw [evaluate_congr (h.reads hR)]
        refine .behind _ fun result => ?_
        cases result with
        | ok a => exact ih (h.define d.name a)
        | error cause => exact .ended h _

/-- A deed that declares nothing. -/
def Deed.declaresNothing : Deed → Bool
  | .declares .. => false
  | _ => true

theorem execDeed_alike (hR : Indistinct R) (h : R s t) {deed : Deed}
    (hdeed : deed.declaresNothing = true) :
    Alike R (execDeed env s deed) (execDeed env t deed) := by
  have hreads := hR.reads h
  cases deed with
  | returns value =>
      cases value with
      | none => exact .ended h _
      | some e =>
          simp only [execDeed, evaluate_congr hreads]
          exact .withNumber h _ fun a => .ended h _
  | prints fmt args =>
      simp only [execDeed, evalValues_congr hreads]
      refine .behind _ fun result => ?_
      cases result with
      | error cause => exact .ended h _
      | ok values =>
          dsimp only
          split
          · exact .ended h _
          · exact .behind _ fun _ => .ended h _
  | declares type ds => cases hdeed
  | assigns target change => exact assign_alike hR h target change
  | evaluates e =>
      simp only [execDeed, evaluate_congr hreads]
      exact .withNumber h _ fun a => .ended h _
  | breaks => exact .ended h _
  | continues => exact .ended h _

/-- Inside a block of its own a statement may declare as well. -/
theorem execDeed_alike_inner (hR : Indistinct R) (h : Under R (n + 1) s t) (deed : Deed) :
    Alike (Under R (n + 1)) (execDeed env s deed) (execDeed env t deed) := by
  cases deed with
  | declares type ds => exact declare_alike hR h ds
  | _ => exact execDeed_alike (Under.indistinct hR _) h rfl

theorem execClause_alike (hR : Indistinct R) (h : Under R (n + 1) s t) (clause : Option Simple) :
    Alike (Under R (n + 1)) (execClause env s clause) (execClause env t clause) := by
  cases clause with
  | none => exact .ended h _
  | some clause => exact execDeed_alike_inner hR h clause.deed

theorem repeatLoop_alike {src : String} {condition : Scope → Routine (Except Abort Number)}
    {body step : Scope → Execution}
    (hcondition : ∀ s t, Under R n s t → condition s = condition t)
    (hbody : ∀ s t, Under R (n + 1) s t → Alike (Under R (n + 1)) (body s) (body t))
    (hstep : ∀ s t, Under R n s t → Alike (Under R n) (step s) (step t)) (left : Nat)
    (h : Under R n s t) : Alike (Under R n) (repeatLoop env src condition body step left s)
      (repeatLoop env src condition body step left t) := by
  induction left generalizing s t with
  | zero =>
      unfold repeatLoop
      rw [hcondition s t h]
      refine .withNumber h _ fun c => ?_
      split
      · exact .ended h _
      · refine .behind _ fun _ => ?_
        split
        · exact .behind _ fun _ => .ended h _
        · exact .ended h _
  | succ left ih =>
      unfold repeatLoop
      rw [hcondition s t h]
      refine .withNumber h _ fun c => ?_
      split
      · exact .ended h _
      · refine .followed (.inChild h hbody) fun s t ending hst => ?_
        cases ending with
        | completed | continued =>
            refine .followed (hstep s t hst) fun s t ending hst => ?_
            cases ending with
            | completed => exact .afterYield hst (ih hst)
            | _ => exact .ended hst _
        | _ => exact .ended hst _

mutual

/-- Inside related chains a statement does the same, and leaves them related. -/
theorem exec_alike (hR : Indistinct R) : ∀ (stmt : Stmt) {n : Nat} {s t : Scope},
    Under R (n + 1) s t → Alike (Under R (n + 1)) (exec env s stmt) (exec env t stmt)
  | .simple clause, n, s, t, h => by
      simp only [exec]
      exact execDeed_alike_inner hR h clause.deed
  | .branch src condition yes no, n, s, t, h => by
      simp only [exec]
      rw [evaluate_congr (h.reads hR)]
      refine .withNumber h _ fun c => ?_
      split
      · exact .inChild h fun _ _ hin => execBlock_alike hR yes hin
      · exact execOther_alike hR no h
  | .whileLoop src condition body, n, s, t, h => by
      simp only [exec]
      exact repeatLoop_alike (fun _ _ hin => evaluate_congr (hin.reads hR) condition)
        (fun _ _ hin => execBlock_alike hR body hin) (fun _ _ hin => .ended hin _) _ h
  | .forLoop src start condition next body, n, s, t, h => by
      simp only [exec]
      refine .inChild h fun s t hin => ?_
      refine .followed (execClause_alike hR hin start) fun s t ending hst => ?_
      cases ending with
      | completed =>
          refine repeatLoop_alike (fun s t hin => ?_) (fun _ _ hin => execBlock_alike hR body hin)
            (fun _ _ hin => execClause_alike hR hin next) _ hst
          cases condition with
          | none => rfl
          | some e => exact evaluate_congr (hin.reads hR) e
      | _ => exact .ended hst _
  | .block src body, n, s, t, h => by
      simp only [exec]
      exact .inChild h fun _ _ hin => execBlock_alike hR body hin

theorem execBlock_alike (hR : Indistinct R) : ∀ (body : List Stmt) {n : Nat} {s t : Scope},
    Under R (n + 1) s t → Alike (Under R (n + 1)) (execBlock env s body) (execBlock env t body)
  | [], n, s, t, h => by
      simp only [execBlock]
      exact .ended h _
  | stmt :: rest, n, s, t, h => by
      simp only [execBlock]
      refine .followed (exec_alike hR stmt h) fun s t ending hst => ?_
      cases ending with
      | completed => exact .afterYield hst (execBlock_alike hR rest hst)
      | _ => exact .ended hst _

theorem execOther_alike (hR : Indistinct R) : ∀ (body : Option (List Stmt)) {n : Nat} {s t : Scope},
    Under R (n + 1) s t → Alike (Under R (n + 1)) (execOther env s body) (execOther env t body)
  | none, n, s, t, h => by
      simp only [execOther]
      exact .ended h _
  | some body, n, s, t, h => by
      simp only [execOther]
      exact .inChild h fun _ _ hin => execBlock_alike hR body hin

end

end ToyC
