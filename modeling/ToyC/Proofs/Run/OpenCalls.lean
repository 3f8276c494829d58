import ToyC.Proofs.Run.Open

/-!
The interpreter leaves calls open. What it does with an expression or a statement is one
orderly computation, whatever a call comes to, and between two checks it calls functions
no more often than there are call expressions in the text: a loop makes a check before
anything in it comes up again.
-/

namespace ToyC

/-! ### Counting call expressions -/

namespace CallCount

mutual

/-- The number of call expressions in an expression. -/
def expr : Expr → Nat
  | .literal .. | .name .. | .invalid _ => 0
  | .unary _ _ e => expr e
  | .binary _ _ left right => expr left + expr right
  | .call _ _ args => exprs args + 1

def exprs : List Expr → Nat
  | [] => 0
  | e :: rest => expr e + exprs rest

end

def expr? : Option Expr → Nat
  | none => 0
  | some e => expr e

def declarators : List Declarator → Nat
  | [] => 0
  | d :: rest => expr? d.value + declarators rest

def deed : Deed → Nat
  | .returns value => expr? value
  | .prints _ args => exprs args
  | .declares _ ds => declarators ds
  | .assigns _ change => expr? change.value?
  | .evaluates e => expr e
  | .breaks | .continues => 0

def clause : Option Simple → Nat
  | none => 0
  | some s => deed s.deed

mutual

/-- The number of call expressions in a statement. -/
def stmt : Stmt → Nat
  | .simple s => deed s.deed
  | .branch _ condition yes no => expr condition + (block yes + other no)
  | .whileLoop _ condition body => expr condition + block body
  | .forLoop _ start condition next body =>
    clause start + (expr? condition + (block body + clause next))
  | .block _ body => block body

def block : List Stmt → Nat
  | [] => 0
  | s :: rest => stmt s + block rest

def other : Option (List Stmt) → Nat
  | none => 0
  | some body => block body

end

end CallCount

open Evaluation CallCount

/-- A function of a program. -/
def Function.IsIn (functions : Table Function) (f : Function) : Prop :=
  ∃ name, Table.get? name functions = some f

/-- What expressions and statements need to know, with the calls left open. -/
def Env.waiting (functions : Table Function) (maxIterations : Int) (calls : Calls) : Env :=
  { functions, call := calls, maxIterations }

namespace Opens

variable {α β : Type} {n m : Nat} {known : Function → Prop}

/-! ### Ways of putting together -/

/-- What follows a result runs only where nothing was aborted. -/
theorem unlessAborted [Abortable β] {family : Calls → Routine (Except Abort α)}
    (h : Opens known n n family)
    {next : Calls → Except Abort α → Routine β} (lost : Abort → β)
    (hlost : ∀ cause, abort? (lost cause) = some cause)
    (stop : ∀ calls cause, next calls (.error cause) = .done (lost cause))
    (go : ∀ a, Opens known m m fun calls => next calls (.ok a)) :
    Opens known (n + m) (n + m) fun calls => (family calls).bind (next calls) := by
  apply h.append
  · rintro (cause | a) stopped hstopped
    · cases hstopped
      exact ⟨lost cause, hlost cause, fun calls => stop calls cause⟩
    · cases hstopped
  · rintro (cause | a) hgoes
    · cases hgoes
    · exact go a

theorem andThen {family : Calls → Evaluation α} {next : Calls → α → Evaluation β}
    (h : Opens known n n fun calls => (family calls).run)
    (hnext : ∀ a, Opens known m m fun calls => (next calls a).run) :
    Opens known (n + m) (n + m) fun calls => (family calls >>= next calls).run := by
  apply h.append
  · rintro (stop | a) cause hcause
    · cases stop with
      | mistake cause => cases hcause
      | abort cause => exact ⟨.error (.abort cause), hcause, fun _ => rfl⟩
    · cases hcause
  · rintro (stop | a) hresult
    · cases stop with
      | mistake cause => exact pure rfl
      | abort cause => cases hresult
    · exact hnext a

/-- What follows the number of an operand. -/
theorem andOperand {family : Calls → Evaluation Value} {next : Calls → Number → Evaluation β}
    (h : Opens known n n fun calls => (family calls).run)
    (hnext : ∀ a, Opens known m m fun calls => (next calls a).run) :
    Opens known (n + m) (n + m) fun calls =>
      (family calls >>= fun value => operand value >>= next calls).run := by
  have hvalue : ∀ value, Opens known (0 + m) (0 + m) fun calls =>
      (operand value >>= next calls).run := by
    intro value
    refine andThen ?_ hnext
    cases value <;> exact pure rfl
  simpa using andThen h hvalue

theorem ofResult (result : Except Failure α) :
    Opens known n n fun _ => (Evaluation.ofResult result).run := by
  cases result with
  | ok a => exact pure rfl
  | error failure =>
      cases failure with
      | mistake cause => exact pure rfl
      | fault f => exact fault rfl

theorem ofCall {family : Calls → Routine (Except Abort α)} (h : Opens known n n family) :
    Opens known n n fun calls => (Evaluation.ofCall (family calls)).run :=
  unlessAborted (m := 0) h (fun cause => .error (.abort cause)) (fun _ => rfl) (fun _ _ => rfl)
    fun _ => pure rfl

theorem absorb {family : Calls → Evaluation Value}
    (h : Opens known n n fun calls => (family calls).run) (note : EvalError → Note) :
    Opens known n n fun calls => Evaluation.absorb note (family calls) := by
  refine append (m := 0) h ?_ ?_
  · rintro (stop | a) cause hcause
    · cases stop with
      | mistake cause => cases hcause
      | abort cause => exact ⟨.error cause, hcause, fun _ => rfl⟩
    · cases hcause
  · rintro (stop | a) hresult
    · cases stop with
      | mistake cause => exact record_bind _ (pure rfl)
      | abort cause => cases hresult
    · exact pure rfl

theorem number {family : Calls → Evaluation Value}
    (h : Opens known n n fun calls => (family calls).run) :
    Opens known n n fun calls => Evaluation.number (family calls) := by
  refine unlessAborted (m := 0) (h.absorb .degraded) .error (fun _ => rfl) (fun _ _ => rfl)
    fun value => ?_
  cases value <;> exact pure rfl

theorem withNumber {family : Calls → Routine (Except Abort Number)} (h : Opens known n n family)
    (scope : Scope) {next : Calls → Number → Execution}
    (hnext : ∀ a, Opens known m m fun calls => next calls a) :
    Opens known (n + m) (n + m) fun calls =>
      Execution.withNumber scope (family calls) (next calls) :=
  unlessAborted h (fun cause => (scope, .aborted cause)) (fun _ => rfl) (fun _ _ => rfl) hnext

/-- What follows an execution that was aborted passes the abort on. -/
theorem followed {later first later' : Nat} {family : Calls → Execution}
    (h : Opens known later first family) (hlater : later + m ≤ later')
    {next : Calls → Scope × Ending → Execution}
    (stop : ∀ calls scope cause, next calls (scope, .aborted cause) = .done (scope, .aborted cause))
    (go : ∀ result, abort? result = none →
      Opens known later' m fun calls => next calls result) :
    Opens known later' (first + m) fun calls => Routine.bind (family calls) (next calls) := by
  refine h.bind hlater ?_ go
  rintro ⟨scope, ending⟩ cause hcause
  cases ending with
  | aborted stopped => exact ⟨_, hcause, fun calls => stop calls scope stopped⟩
  | _ => cases hcause

theorem inChild (scope : Scope) {body : Calls → Scope → Execution}
    (h : ∀ inner, Opens known n n fun calls => body calls inner) :
    Opens known n n fun calls => Execution.inChild scope (body calls) := by
  refine append (m := 0) (h scope.child) ?_ ?_
  · rintro ⟨inner, ending⟩ cause hcause
    cases ending with
    | aborted stopped => exact ⟨(inner.parent, .aborted stopped), hcause, fun _ => rfl⟩
    | _ => cases hcause
  · rintro ⟨inner, ending⟩ hresult
    cases ending with
    | aborted stopped => cases hresult
    | _ => exact pure rfl

/-- Behind a yield point the counting starts again. -/
theorem afterYield (scope : Scope) {next : Calls → Execution} (h : Opens known n n next) :
    Opens known n 0 fun calls => Execution.afterYield scope fun _ => next calls := by
  obtain ⟨c, hclose, horder⟩ := h
  have hlost : (Open.done (scope, Ending.aborted .cancelled)).Orderly known n n :=
    .done (by simp [abort?])
  refine ⟨.check fun cancelled => if cancelled then .done (scope, .aborted .cancelled)
    else .act .pause fun _ => .check fun cancelled =>
      if cancelled then .done (scope, .aborted .cancelled) else c, fun calls => ?_, ?_⟩
  · refine congrArg Routine.check (funext fun cancelled => ?_)
    cases cancelled with
    | true => rfl
    | false =>
        refine congrArg (Routine.act .pause) (funext fun _ => congrArg Routine.check
          (funext fun cancelled => ?_))
        cases cancelled with
        | true => rfl
        | false => exact hclose calls
  · refine .check fun cancelled => ?_
    cases cancelled with
    | true => exact hlost
    | false =>
        refine .act trivial (.check fun cancelled => ?_)
        cases cancelled with
        | true => exact hlost
        | false => exact horder

end Opens

section

variable {functions : Table Function} {maxIterations : Int}

/-! ### Expressions -/

mutual

theorem eval_opens (scope : Scope) : ∀ e : Expr,
    Opens (Function.IsIn functions) (expr e) (expr e) fun calls =>
      (eval (.waiting functions maxIterations calls) scope e).run
  | .literal pos value => by
      simp only [eval]
      exact .pure rfl
  | .name pos ident => by
      simp only [eval]
      split <;> exact .pure rfl
  | .unary pos op e => by
      simp only [eval]
      exact .andOperand (m := 0) (eval_opens scope e) fun a => .pure rfl
  | .binary pos op left right => by
      have hleft := eval_opens scope left
      have hright := eval_opens scope right
      cases op with
      | or =>
          simp only [eval]
          refine .andOperand hleft fun a => ?_
          split
          · exact .pure rfl
          · exact .andOperand (m := 0) hright fun b => .pure rfl
      | and =>
          simp only [eval]
          refine .andOperand hleft fun a => ?_
          split
          · exact .andOperand (m := 0) hright fun b => .pure rfl
          · exact .pure rfl
      | compare test =>
          simp only [eval]
          exact .andOperand hleft fun a => .andOperand (m := 0) hright fun b =>
            .andThen (n := 0) (m := 0) (.ofResult _) fun c => .pure rfl
      | arith op =>
          simp only [eval]
          exact .andOperand hleft fun a => .andOperand (m := 0) hright fun b =>
            .andThen (n := 0) (m := 0) (.ofResult _) fun c => .pure rfl
  | .call pos func args => by
      have hargs := evalArgs_opens scope args
      simp only [eval, Env.waiting]
      split
      · rename_i hf
        exact .andThen hargs fun values =>
          .andThen (m := 0) (.ofCall (.call ⟨func, hf⟩ values)) fun a => .pure rfl
      · split
        · split
          · exact .pure rfl
          · exact .andThen hargs fun values => .andThen (m := 0) (.ofResult _) fun a => .pure rfl
        · exact .pure rfl
  | .invalid text => by
      simp only [eval]
      exact .pure rfl

theorem evalArgs_opens (scope : Scope) : ∀ args : List Expr,
    Opens (Function.IsIn functions) (exprs args) (exprs args) fun calls =>
      (evalArgs (.waiting functions maxIterations calls) scope args).run
  | [] => by
      simp only [evalArgs]
      exact .pure rfl
  | arg :: rest => by
      simp only [evalArgs]
      exact .andThen (.ofCall (.number (eval_opens scope arg))) fun a =>
        .andThen (m := 0) (evalArgs_opens scope rest) fun more => .pure rfl

end

theorem evaluate_opens (scope : Scope) (e : Expr) :
    Opens (Function.IsIn functions) (expr e) (expr e) fun calls =>
      evaluate (.waiting functions maxIterations calls) scope e :=
  .number (eval_opens scope e)

theorem evalValues_opens (scope : Scope) (es : List Expr) :
    Opens (Function.IsIn functions) (exprs es) (exprs es) fun calls =>
      evalValues (.waiting functions maxIterations calls) scope es := by
  induction es with
  | nil => exact .pure rfl
  | cons e rest ih =>
      refine .unlessAborted (.absorb (eval_opens scope e) .degradedArgument) .error (fun _ => rfl)
        (fun _ _ => rfl) fun value => ?_
      exact .unlessAborted (m := 0) ih .error (fun _ => rfl) (fun _ _ => rfl) fun more => .pure rfl

/-! ### Statements -/

theorem updated_opens (op : ArithOp) (current value : Number) :
    Opens (Function.IsIn functions) 0 0 fun _ => updated op current value := by
  unfold updated
  split
  · exact .pure rfl
  · exact .record_bind _ (.pure rfl)
  · exact .fault rfl

theorem assign_opens (scope : Scope) (target : String) (change : Change) :
    Opens (Function.IsIn functions) (expr? change.value?) (expr? change.value?) fun calls =>
      assign (.waiting functions maxIterations calls) scope target change := by
  cases hfound : Scope.get? target scope with
  | none =>
      have hundeclared : Opens (Function.IsIn functions) 0 0 fun _ =>
          (Routine.record (.undeclared target)).bind fun _ => .done (scope, Ending.completed) :=
        .record_bind _ (.pure rfl)
      cases change <;> simp only [assign, hfound]
      case set e => exact .withNumber (m := 0) (evaluate_opens scope e) scope fun _ => hundeclared
      case update op e =>
          exact .withNumber (m := 0) (evaluate_opens scope e) scope fun _ => hundeclared
      case increment => exact hundeclared
      case decrement => exact hundeclared
  | some current =>
      cases change <;> simp only [assign, hfound]
      case set e =>
          exact .withNumber (m := 0) (evaluate_opens scope e) scope fun _ =>
            .withNumber (n := 0) (m := 0) (.pure rfl) scope fun _ => .pure rfl
      case update op e =>
          exact .withNumber (m := 0) (evaluate_opens scope e) scope fun a =>
            .withNumber (m := 0) (updated_opens op current a) scope fun _ => .pure rfl
      case increment => exact .withNumber (n := 0) (m := 0) (.pure rfl) scope fun _ => .pure rfl
      case decrement => exact .withNumber (n := 0) (m := 0) (.pure rfl) scope fun _ => .pure rfl

theorem declare_opens (scope : Scope) (ds : List Declarator) :
    Opens (Function.IsIn functions) (declarators ds) (declarators ds) fun calls =>
      declare (.waiting functions maxIterations calls) scope ds := by
  induction ds generalizing scope with
  | nil => exact .pure rfl
  | cons d rest ih =>
      obtain ⟨name, value⟩ := d
      cases value with
      | none => exact (ih _).mono (Nat.le_add_left _ _) (Nat.le_add_left _ _)
      | some e =>
          exact .unlessAborted (evaluate_opens scope e) (fun cause => (scope, .aborted cause))
            (fun _ => rfl) (fun _ _ => rfl) fun a => ih _

theorem execDeed_opens (scope : Scope) (d : Deed) :
    Opens (Function.IsIn functions) (deed d) (deed d) fun calls =>
      execDeed (.waiting functions maxIterations calls) scope d := by
  cases d with
  | returns value =>
      cases value with
      | none => exact .pure rfl
      | some e =>
          exact .withNumber (m := 0) (evaluate_opens scope e) scope fun a => .pure rfl
  | prints fmt args =>
      refine .unlessAborted (m := 0) (evalValues_opens scope args)
        (fun cause => (scope, .aborted cause)) (fun _ => rfl) (fun _ _ => rfl) fun values => ?_
      dsimp only
      split
      · exact .fault rfl
      · exact .emit_bind _ (.pure rfl)
  | declares type ds => exact declare_opens scope ds
  | assigns target change => exact assign_opens scope target change
  | evaluates e => exact .withNumber (m := 0) (evaluate_opens scope e) scope fun a => .pure rfl
  | breaks => exact .pure rfl
  | continues => exact .pure rfl

theorem execClause_opens (scope : Scope) (s : Option Simple) :
    Opens (Function.IsIn functions) (clause s) (clause s) fun calls =>
      execClause (.waiting functions maxIterations calls) scope s := by
  cases s with
  | none => exact .pure rfl
  | some s => exact execDeed_opens scope s.deed

theorem reportRunaway_opens (src : String) (scope : Scope) :
    Opens (Function.IsIn functions) 0 0 fun calls =>
      reportRunaway (.waiting functions maxIterations calls) src scope := by
  simp only [reportRunaway, Env.waiting]
  refine .record_bind _ ?_
  split
  · exact .emit_bind _ (.pure rfl)
  · exact .fault rfl

/-- An iteration makes a check before the loop goes on, so the calls of one iteration are all that
there can be between two checks. -/
theorem repeatLoop_opens (src : String)
    {condition : Calls → Scope → Routine (Except Abort Number)}
    {body step : Calls → Scope → Execution} {c b s : Nat}
    (hcondition : ∀ scope, Opens (Function.IsIn functions) c c fun calls => condition calls scope)
    (hbody : ∀ scope, Opens (Function.IsIn functions) b b fun calls => body calls scope)
    (hstep : ∀ scope, Opens (Function.IsIn functions) s s fun calls => step calls scope)
    (left : Nat) (scope : Scope) :
    Opens (Function.IsIn functions) (c + (b + s)) (c + (b + s)) fun calls =>
      repeatLoop (.waiting functions maxIterations calls) src (condition calls) (body calls)
        (step calls) left scope := by
  induction left generalizing scope with
  | zero =>
      unfold repeatLoop
      refine .withNumber (hcondition scope) scope fun a => ?_
      split
      · exact .pure rfl
      · exact (reportRunaway_opens src scope).mono (Nat.zero_le _) (Nat.zero_le _)
  | succ left ih =>
      unfold repeatLoop
      refine .bind (m := b + s) (hcondition scope) (Nat.le_refl _) ?_ ?_
      · rintro (cause | a) stopped hstopped
        · exact ⟨(scope, .aborted cause), hstopped, fun _ => rfl⟩
        · cases hstopped
      · rintro (cause | a) hgoes
        · cases hgoes
        · dsimp only
          split
          · exact .pure rfl
          · refine .followed (m := s) (.inChild scope hbody) (by omega) (fun _ _ _ => rfl) ?_
            rintro ⟨after, ending⟩ hending
            cases ending with
            | completed | continued =>
                refine .followed (m := 0) (hstep after) (by omega) (fun _ _ _ => rfl) ?_
                rintro ⟨last, ending⟩ hending
                cases ending with
                | completed => exact .afterYield last (ih last)
                | aborted cause => cases hending
                | _ => exact .pure rfl
            | aborted cause => cases hending
            | _ => exact .pure rfl

mutual

theorem exec_opens : ∀ (s : Stmt) (scope : Scope),
    Opens (Function.IsIn functions) (stmt s) (stmt s) fun calls =>
      exec (.waiting functions maxIterations calls) scope s
  | .simple s, scope => by
      simp only [exec]
      exact execDeed_opens scope s.deed
  | .branch src condition yes no, scope => by
      simp only [exec]
      refine .withNumber (evaluate_opens scope condition) scope fun c => ?_
      split
      · exact (Opens.inChild scope fun inner => execBlock_opens yes inner).mono
          (Nat.le_add_right _ _) (Nat.le_add_right _ _)
      · exact (execOther_opens no scope).mono (Nat.le_add_left _ _) (Nat.le_add_left _ _)
  | .whileLoop src condition body, scope => by
      simp only [exec]
      have hstep : ∀ inner : Scope, Opens (Function.IsIn functions) 0 0 fun _ =>
          .done (inner, Ending.completed) := fun inner => .pure rfl
      exact repeatLoop_opens src (fun inner => evaluate_opens inner condition)
        (fun inner => execBlock_opens body inner) hstep maxIterations.toNat scope
  | .forLoop src start condition next body, scope => by
      simp only [exec]
      refine .inChild scope fun inner => ?_
      refine .append (execClause_opens inner start) ?_ ?_
      · rintro ⟨after, ending⟩ cause hcause
        cases ending with
        | aborted stopped => exact ⟨_, hcause, fun _ => rfl⟩
        | _ => cases hcause
      · rintro ⟨after, ending⟩ hending
        cases ending with
        | completed =>
            refine repeatLoop_opens src (fun scope => ?_)
              (fun scope => execBlock_opens body scope)
              (fun scope => execClause_opens scope next) maxIterations.toNat after
            cases condition with
            | none => exact .pure rfl
            | some e => exact evaluate_opens scope e
        | aborted cause => cases hending
        | _ => exact .pure rfl
  | .block src body, scope => by
      simp only [exec]
      exact .inChild scope fun inner => execBlock_opens body inner

theorem execBlock_opens : ∀ (body : List Stmt) (scope : Scope),
    Opens (Function.IsIn functions) (block body) (block body) fun calls =>
      execBlock (.waiting functions maxIterations calls) scope body
  | [], scope => by
      simp only [execBlock]
      exact .pure rfl
  | s :: rest, scope => by
      simp only [execBlock]
      refine .mono (n := stmt s + block rest) (k := stmt s + 0) ?_ (Nat.le_refl _)
        (Nat.le_add_right _ _)
      refine .followed (m := 0) (exec_opens s scope) (Nat.le_add_right _ _)
        (fun _ _ _ => rfl) ?_
      rintro ⟨after, ending⟩ hending
      cases ending with
      | completed =>
          exact (Opens.afterYield after (execBlock_opens rest after)).mono (Nat.le_add_left _ _)
            (Nat.le_refl _)
      | aborted cause => cases hending
      | _ => exact .pure rfl

theorem execOther_opens : ∀ (body : Option (List Stmt)) (scope : Scope),
    Opens (Function.IsIn functions) (other body) (other body) fun calls =>
      execOther (.waiting functions maxIterations calls) scope body
  | none, scope => by
      simp only [execOther]
      exact .pure rfl
  | some body, scope => by
      simp only [execOther]
      exact .inChild scope fun inner => execBlock_opens body inner

end

/-! ### Bodies of functions -/

/-- What the body of a function comes to, whatever its calls come to. -/
def Function.opened (functions : Table Function) (maxIterations : Int) (f : Function)
    (args : List Number) (calls : Calls) : Routine (Except Abort Number) :=
  (execBlock (.waiting functions maxIterations calls) [bindParams f.signature.params args []]
    f.body).bind fun (_, ending) => ending.result f.name

theorem Function.body_opens (f : Function) (args : List Number) :
    Opens (Function.IsIn functions) (block f.body) (block f.body)
      (f.opened functions maxIterations args) := by
  refine .append (m := 0) (execBlock_opens f.body _) ?_ ?_
  · rintro ⟨scope, ending⟩ cause hcause
    cases ending with
    | aborted stopped => exact ⟨.error stopped, hcause, fun _ => rfl⟩
    | _ => cases hcause
  · rintro ⟨scope, ending⟩ hending
    cases ending with
    | broke | continued => exact .record_bind _ (.pure rfl)
    | aborted cause => cases hending
    | _ => exact .pure rfl

end

end ToyC
