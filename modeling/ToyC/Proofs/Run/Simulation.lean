import ToyC.Proofs.Run.Live
import ToyC.Proofs.Run.Origin
import ToyC.Run.Artifact

/-!
Two interpreters side by side. The calls and the limit of repetitions are parameters
of evaluation and execution, so what holds between the calls of two environments can
be carried to everything that statements and expressions do. A relation between
routines is carried if it can be kept across the few ways in which the interpreter
puts routines together; an aborted part is followed by nothing but the abort.
-/

namespace ToyC

/-- Results that can tell that a run is to be aborted. -/
class Abortable (α : Type) where
  abort? : α → Option Abort

export Abortable (abort?)

instance {α : Type} : Abortable (Except Abort α) where
  abort?
    | .ok _ => none
    | .error cause => some cause

instance {α : Type} : Abortable (Except Stop α) where
  abort?
    | .error (.abort cause) => some cause
    | _ => none

instance : Abortable (Scope × Ending) where
  abort?
    | (_, .aborted cause) => some cause
    | _ => none

/-- An abort by a fault of number arithmetic or formatting. -/
def Abort.IsNumeric (cause : Abort) : Prop :=
  ∃ f : Fault, cause = .fault f ∧ f.IsNumeric

namespace Routine

variable {α β : Type}

theorem gives_live (cancels : List Sight → Bool) (p : Routine α) (seen : List Sight) :
    p.Gives (p.live cancels seen).2 := by
  induction p generalizing seen with
  | done a => exact .done
  | act action rest ih => cases action <;> exact .act (ih () _)
  | check resume ih => exact .check (cancels seen) (ih _ _)

theorem gives_outcome (p : Routine α) : p.Gives p.outcome := by
  have hgives := gives_live (fun _ => false) p []
  rwa [live_never] at hgives

/-- What is seen of a routine that finishes is its chunks. -/
theorem Finishes.live {final : α → Prop} {chunks : List String} {p : Routine α}
    (h : p.Finishes final chunks) (cancels : List Sight → Bool) (seen : List Sight) :
    (p.live cancels seen).1 = seen ++ chunks.map .chunk ∧ final (p.live cancels seen).2 := by
  induction h generalizing seen with
  | done h => simpa using h
  | @print chunk chunks rest _ ih =>
      rw [List.map_cons, List.append_cons]
      exact ih (seen ++ [.chunk chunk])
  | silent hsilent _ ih =>
      rw [live_silent hsilent]
      exact ih seen

/-- A routine that shows nothing more before it gives a value. -/
abbrev Settles (value : α) (p : Routine α) : Prop :=
  p.Finishes (· = value) []

theorem Settles.live {value : α} {p : Routine α} (h : p.Settles value)
    (cancels : List Sight → Bool) (seen : List Sight) : p.live cancels seen = (seen, value) := by
  obtain ⟨hseen, hvalue⟩ := Finishes.live h cancels seen
  exact Prod.ext (by simpa using hseen) hvalue

end Routine

open Routine Execution

/-- A relation between routines that give results of the same type. -/
abbrev RoutineRelation :=
  ∀ {α : Type} [Abortable α], Routine α → Routine α → Prop

/-- A relation that is kept where routines are put together in the ways of the interpreter. -/
structure Congruence (Rel : RoutineRelation) : Prop where
  done {α : Type} [Abortable α] {a : α} (h : ∀ cause, abort? a = some cause → cause.IsNumeric) :
    Rel (.done a) (.done a)
  act {α : Type} [Abortable α] (action : Action) {rest rest' : Unit → Routine α}
    (h : Rel (rest ()) (rest' ())) : Rel (.act action rest) (.act action rest')
  /-- A yield point ends in a given way where the routine is cancelled. -/
  yield {α : Type} [Abortable α] {lost : α} (hlost : abort? lost = some .cancelled)
    {next next' : Unit → Routine α} (h : Rel (next ()) (next' ())) :
    Rel (yieldPoint.bind fun cancelled => if cancelled then .done lost else next ())
      (yieldPoint.bind fun cancelled => if cancelled then .done lost else next' ())
  /-- What follows an abort does nothing but pass it on. -/
  bind {α β : Type} [Abortable α] [Abortable β] {p p' : Routine α} {next next' : α → Routine β}
    (h : Rel p p')
    (stop : ∀ a cause, abort? a = some cause →
      ∃ b, abort? b = some cause ∧ (next a).Settles b ∧ next' a = next a)
    (go : ∀ a, p.Gives a → abort? a = none → Rel (next a) (next' a)) :
    Rel (p.bind next) (p'.bind next')

/-- Two environments for the same functions whose calls are related. A loop of the second may
repeat more often than one of the first. -/
structure Simulates (Rel : RoutineRelation) (env env' : Env) : Prop extends Congruence Rel where
  functions : env'.functions = env.functions
  limit : env.maxIterations.toNat ≤ env'.maxIterations.toNat
  call (f : Function) (args : List Number) : Rel (env.call f args) (env'.call f args)
  /-- A loop that is reported is related to whatever the other loop does, which is the same where
  the limits are. -/
  runaway (src : String) (scope : Scope) (other : Execution)
    (h : env.maxIterations = env'.maxIterations → other = reportRunaway env src scope) :
    Rel (reportRunaway env src scope) other

variable {Rel : RoutineRelation} {env env' : Env}

namespace Congruence

/-- A value that aborts nothing. -/
theorem pure {α : Type} [Abortable α] (h : Congruence Rel) {a : α} (ha : abort? a = none) :
    Rel (.done a) (.done a) :=
  h.done fun cause hcause => by simp [ha] at hcause

theorem fault {α : Type} [Abortable α] (h : Congruence Rel) {a : α} {f : Fault}
    (ha : abort? a = some (.fault f)) (hnumeric : f.IsNumeric) : Rel (.done a) (.done a) := by
  refine h.done fun cause hcause => ?_
  rw [ha] at hcause
  cases hcause
  exact ⟨f, rfl, hnumeric⟩

theorem record_bind {α : Type} [Abortable α] (h : Congruence Rel) (n : Note)
    {next next' : Unit → Routine α} (hnext : Rel (next ()) (next' ())) :
    Rel ((Routine.record n).bind next) ((Routine.record n).bind next') :=
  h.act _ hnext

theorem emit_bind {α : Type} [Abortable α] (h : Congruence Rel) (text : String)
    {next next' : Unit → Routine α} (hnext : Rel (next ()) (next' ())) :
    Rel ((Routine.emit text).bind next) ((Routine.emit text).bind next') := by
  unfold Routine.emit
  split
  · exact hnext
  · exact h.act _ hnext

variable {α β : Type}

/-- What follows a result runs only where nothing was aborted. -/
theorem unlessAborted [Abortable β] (h : Congruence Rel) {p p' : Routine (Except Abort α)}
    (hp : Rel p p') {next next' : Except Abort α → Routine β} (lost : Abort → β)
    (hlost : ∀ cause, abort? (lost cause) = some cause)
    (stop : ∀ cause, next (.error cause) = .done (lost cause))
    (stop' : ∀ cause, next' (.error cause) = .done (lost cause))
    (go : ∀ a, Rel (next (.ok a)) (next' (.ok a))) : Rel (p.bind next) (p'.bind next') := by
  apply h.bind hp
  · rintro (cause | a) stopped hstopped
    · cases hstopped
      refine ⟨lost cause, hlost cause, ?_, by rw [stop, stop']⟩
      rw [stop]
      exact .done rfl
    · cases hstopped
  · rintro (cause | a) - hgoes
    · cases hgoes
    · exact go a

/-! ### Expressions -/

theorem andThen (h : Congruence Rel) {p p' : Evaluation α} {next next' : α → Evaluation β}
    (hp : Rel p.run p'.run)
    (hnext : ∀ a, p.run.Gives (.ok a) → Rel (next a).run (next' a).run) :
    Rel (p >>= next).run (p' >>= next').run := by
  apply h.bind hp
  · rintro (stop | a) cause hcause
    · cases stop with
      | mistake cause => cases hcause
      | abort cause => exact ⟨.error (.abort cause), hcause, .done rfl, rfl⟩
    · cases hcause
  · rintro (stop | a) hgives hresult
    · cases stop with
      | mistake cause => exact h.pure rfl
      | abort cause => cases hresult
    · exact hnext a hgives

/-- What follows the number of an operand. -/
theorem andOperand (h : Congruence Rel) {p p' : Evaluation Value} (hp : Rel p.run p'.run)
    {next next' : Number → Evaluation β} (hnext : ∀ a, Rel (next a).run (next' a).run) :
    Rel (p >>= fun value => Evaluation.operand value >>= next).run
      (p' >>= fun value => Evaluation.operand value >>= next').run := by
  refine h.andThen hp fun value _ => h.andThen ?_ fun a _ => hnext a
  cases value <;> exact h.pure rfl

theorem ofResult (h : Congruence Rel) {result : Except Failure α}
    (hresult : ∀ f, result = .error (.fault f) → f.IsNumeric) :
    Rel (Evaluation.ofResult result).run (Evaluation.ofResult result).run := by
  cases result with
  | ok a => exact h.pure rfl
  | error failure =>
      cases failure with
      | mistake cause => exact h.pure rfl
      | fault f => exact h.fault rfl (hresult f rfl)

theorem ofCall (h : Congruence Rel) {p p' : Routine (Except Abort α)} (hp : Rel p p') :
    Rel (Evaluation.ofCall p).run (Evaluation.ofCall p').run :=
  h.unlessAborted hp (fun cause => .error (.abort cause)) (fun _ => rfl) (fun _ => rfl)
    (fun _ => rfl) fun _ => h.pure rfl

/-- What absorbs mistakes passes an abort on. -/
theorem absorb (h : Congruence Rel) {p p' : Evaluation Value} (hp : Rel p.run p'.run)
    (note : EvalError → Note) : Rel (Evaluation.absorb note p) (Evaluation.absorb note p') := by
  apply h.bind hp
  · rintro (stop | a) cause hcause
    · cases stop with
      | mistake cause => cases hcause
      | abort cause => exact ⟨.error cause, hcause, .done rfl, rfl⟩
    · cases hcause
  · rintro (stop | a) - hresult
    · cases stop with
      | mistake cause => exact h.record_bind _ (h.pure rfl)
      | abort cause => cases hresult
    · exact h.pure rfl

theorem number (h : Congruence Rel) {p p' : Evaluation Value} (hp : Rel p.run p'.run) :
    Rel (Evaluation.number p) (Evaluation.number p') := by
  refine h.unlessAborted (h.absorb hp .degraded) .error (fun _ => rfl) (fun _ => rfl)
    (fun _ => rfl) fun value => ?_
  cases value <;> exact h.pure rfl

/-! ### Statements -/

theorem withNumber (h : Congruence Rel) {p p' : Routine (Except Abort Number)} (hp : Rel p p')
    (scope : Scope) {next next' : Number → Execution} (hnext : ∀ a, Rel (next a) (next' a)) :
    Rel (Execution.withNumber scope p next) (Execution.withNumber scope p' next') :=
  h.unlessAborted hp (fun cause => (scope, .aborted cause)) (fun _ => rfl) (fun _ => rfl)
    (fun _ => rfl) hnext

/-- What follows an execution that was aborted passes the abort on. -/
theorem followed (h : Congruence Rel) {p p' : Execution} (hp : Rel p p')
    {next next' : Scope × Ending → Execution}
    (stop : ∀ scope cause, next (scope, .aborted cause) = .done (scope, .aborted cause))
    (stop' : ∀ scope cause, next' (scope, .aborted cause) = .done (scope, .aborted cause))
    (go : ∀ result, abort? result = none → Rel (next result) (next' result)) :
    Rel (Routine.bind p next) (Routine.bind p' next') := by
  apply h.bind hp
  · rintro ⟨scope, ending⟩ cause hcause
    cases ending with
    | aborted stopped =>
        refine ⟨(scope, .aborted stopped), hcause, ?_, by rw [stop, stop']⟩
        rw [stop]
        exact .done rfl
    | _ => cases hcause
  · exact fun result _ hresult => go result hresult

theorem inChild (h : Congruence Rel) (scope : Scope) {body body' : Scope → Execution}
    (hbody : ∀ inner, Rel (body inner) (body' inner)) :
    Rel (Execution.inChild scope body) (Execution.inChild scope body') := by
  apply h.bind (hbody scope.child)
  · rintro ⟨inner, ending⟩ cause hcause
    cases ending with
    | aborted stopped => exact ⟨(inner.parent, .aborted stopped), hcause, .done rfl, rfl⟩
    | _ => cases hcause
  · rintro ⟨inner, ending⟩ - hresult
    cases ending with
    | aborted stopped => cases hresult
    | _ => exact h.pure rfl

theorem afterYield (h : Congruence Rel) (scope : Scope) {next next' : Unit → Execution}
    (hnext : Rel (next ()) (next' ())) :
    Rel (Execution.afterYield scope next) (Execution.afterYield scope next') :=
  h.yield rfl hnext

theorem reportRunaway (h : Congruence Rel) (env : Env) (src : String) (scope : Scope) :
    Rel (reportRunaway env src scope) (reportRunaway env src scope) := by
  refine h.record_bind _ ?_
  split
  · exact h.emit_bind _ (h.pure rfl)
  · rename_i hfault
    exact h.fault rfl (.inr (runawayMessage_fault hfault))

/-- Environments that differ in their calls alone. -/
theorem simulates (h : Congruence Rel) (functions : Table Function) (maxIterations : Int)
    (call call' : Function → List Number → Routine (Except Abort Number))
    (hcall : ∀ f args, Rel (call f args) (call' f args)) :
    Simulates Rel { functions, call, maxIterations } { functions, call := call', maxIterations } :=
  { h with
    functions := rfl
    limit := Nat.le_refl _
    call := hcall
    runaway := fun src scope other hother => by
      rw [hother rfl]
      exact h.reportRunaway _ src scope }

end Congruence

/-! ### Related interpreters -/

open Evaluation

/-- Evaluated arguments are as many as there are expressions. -/
theorem length_of_gives_evalArgs {env : Env} {scope : Scope} {args : List Expr}
    {values : List Number} (h : (evalArgs env scope args).run.Gives (.ok values)) :
    values.length = args.length := by
  induction args generalizing values with
  | nil =>
      simp only [evalArgs] at h
      cases h
      rfl
  | cons arg rest ih =>
      simp only [evalArgs] at h
      obtain ⟨first, -, hrest⟩ := Gives.of_bind h
      cases first with
      | error stop => cases hrest
      | ok a =>
          obtain ⟨more, hmore, hdone⟩ := Gives.of_bind hrest
          cases more with
          | error stop => cases hdone
          | ok more =>
              cases hdone
              simp [ih hmore]

mutual

theorem eval_related (h : Simulates Rel env env') (scope : Scope) :
    ∀ e : Expr, Rel (eval env scope e).run (eval env' scope e).run
  | .literal pos value => by
      simp only [eval]
      exact h.pure rfl
  | .name pos ident => by
      simp only [eval]
      split <;> exact h.pure rfl
  | .unary pos op e => by
      simp only [eval]
      exact h.andOperand (eval_related h scope e) fun a => h.pure rfl
  | .binary pos op left right => by
      have hleft := eval_related h scope left
      have hright := eval_related h scope right
      cases op with
      | or =>
          simp only [eval]
          refine h.andOperand hleft fun a => ?_
          split
          · exact h.pure rfl
          · exact h.andOperand hright fun b => h.pure rfl
      | and =>
          simp only [eval]
          refine h.andOperand hleft fun a => ?_
          split
          · exact h.andOperand hright fun b => h.pure rfl
          · exact h.pure rfl
      | compare test =>
          simp only [eval]
          refine h.andOperand hleft fun a => h.andOperand hright fun b => ?_
          exact h.andThen (h.ofResult fun f hf => .inl (Number.operate_fault hf)) fun c _ =>
            h.pure rfl
      | arith op =>
          simp only [eval]
          refine h.andOperand hleft fun a => h.andOperand hright fun b => ?_
          exact h.andThen (h.ofResult fun f hf => .inl (Number.operate_fault hf)) fun c _ =>
            h.pure rfl
  | .call pos func args => by
      have hargs := evalArgs_related h scope args
      simp only [eval, h.functions]
      split
      · exact h.andThen hargs fun values _ =>
          h.andThen (h.ofCall (h.call _ values)) fun a _ => h.pure rfl
      · split
        · split
          · exact h.pure rfl
          · -- the count of the arguments has been compared, so applying the function is safe
            rename_i builtin _ hcount
            refine h.andThen hargs fun values hgives =>
              h.andThen (h.ofResult fun f hf => ?_) fun a _ => h.pure rfl
            have hlength : values.length = builtin.arity :=
              (length_of_gives_evalArgs hgives).trans (Decidable.not_not.mp hcount)
            exact .inr (Builtin.applyNumbers_fault hlength hf)
        · exact h.pure rfl
  | .invalid text => by
      simp only [eval]
      exact h.pure rfl

theorem evalArgs_related (h : Simulates Rel env env') (scope : Scope) :
    ∀ args : List Expr, Rel (evalArgs env scope args).run (evalArgs env' scope args).run
  | [] => by
      simp only [evalArgs]
      exact h.pure rfl
  | arg :: rest => by
      simp only [evalArgs]
      exact h.andThen (h.ofCall (h.number (eval_related h scope arg))) fun a _ =>
        h.andThen (evalArgs_related h scope rest) fun more _ => h.pure rfl

end

theorem evaluate_related (h : Simulates Rel env env') (scope : Scope) (e : Expr) :
    Rel (evaluate env scope e) (evaluate env' scope e) :=
  h.number (eval_related h scope e)

theorem evalValues_related (h : Simulates Rel env env') (scope : Scope) (es : List Expr) :
    Rel (evalValues env scope es) (evalValues env' scope es) := by
  induction es with
  | nil => exact h.pure rfl
  | cons e rest ih =>
      refine h.unlessAborted (h.absorb (eval_related h scope e) .degradedArgument) .error
        (fun _ => rfl) (fun _ => rfl) (fun _ => rfl) fun value => ?_
      exact h.unlessAborted ih .error (fun _ => rfl) (fun _ => rfl) (fun _ => rfl)
        fun more => h.pure rfl

/-! ### Statements -/

theorem updated_related (h : Congruence Rel) (op : ArithOp) (current value : Number) :
    Rel (updated op current value) (updated op current value) := by
  unfold updated
  split
  · exact h.pure rfl
  · exact h.record_bind _ (h.pure rfl)
  · rename_i hfault
    exact h.fault rfl (.inl (Number.combine_fault hfault))

theorem assign_related (h : Simulates Rel env env') (scope : Scope) (target : String)
    (change : Change) : Rel (assign env scope target change) (assign env' scope target change) := by
  cases hfound : Scope.get? target scope with
  | none =>
      have hundeclared : Rel
          ((Routine.record (.undeclared target)).bind fun _ => .done (scope, Ending.completed))
          ((Routine.record (.undeclared target)).bind fun _ => .done (scope, Ending.completed)) :=
        h.record_bind _ (h.pure rfl)
      cases change <;> simp only [assign, hfound]
      case set e => exact h.withNumber (evaluate_related h scope e) scope fun _ => hundeclared
      case update op e => exact h.withNumber (evaluate_related h scope e) scope fun _ => hundeclared
      case increment => exact hundeclared
      case decrement => exact hundeclared
  | some current =>
      cases change <;> simp only [assign, hfound]
      case set e =>
          exact h.withNumber (evaluate_related h scope e) scope fun _ =>
            h.withNumber (h.pure rfl) scope fun _ => h.pure rfl
      case update op e =>
          exact h.withNumber (evaluate_related h scope e) scope fun a =>
            h.withNumber (updated_related h.toCongruence op current a) scope fun _ => h.pure rfl
      case increment => exact h.withNumber (h.pure rfl) scope fun _ => h.pure rfl
      case decrement => exact h.withNumber (h.pure rfl) scope fun _ => h.pure rfl

theorem declare_related (h : Simulates Rel env env') (scope : Scope) (ds : List Declarator) :
    Rel (declare env scope ds) (declare env' scope ds) := by
  induction ds generalizing scope with
  | nil => exact h.pure rfl
  | cons d rest ih =>
      unfold declare
      split
      · exact ih _
      · exact h.unlessAborted (evaluate_related h scope _) (fun cause => (scope, .aborted cause))
          (fun _ => rfl) (fun _ => rfl) (fun _ => rfl) fun a => ih _

theorem execDeed_related (h : Simulates Rel env env') (scope : Scope) (deed : Deed) :
    Rel (execDeed env scope deed) (execDeed env' scope deed) := by
  cases deed with
  | returns value =>
      cases value with
      | none => exact h.pure rfl
      | some e => exact h.withNumber (evaluate_related h scope e) scope fun a => h.pure rfl
  | prints fmt args =>
      refine h.unlessAborted (evalValues_related h scope args)
        (fun cause => (scope, .aborted cause)) (fun _ => rfl) (fun _ => rfl) (fun _ => rfl)
        fun values => ?_
      dsimp only
      split
      · rename_i hfault
        exact h.fault rfl (.inr (Printf.format_fault hfault))
      · exact h.emit_bind _ (h.pure rfl)
  | declares type ds => exact declare_related h scope ds
  | assigns target change => exact assign_related h scope target change
  | evaluates e => exact h.withNumber (evaluate_related h scope e) scope fun a => h.pure rfl
  | breaks => exact h.pure rfl
  | continues => exact h.pure rfl

theorem execClause_related (h : Simulates Rel env env') (scope : Scope) (clause : Option Simple) :
    Rel (execClause env scope clause) (execClause env' scope clause) := by
  cases clause with
  | none => exact h.pure rfl
  | some s => exact execDeed_related h scope s.deed

/-- Two loops that may repeat as often as their environments still allow. -/
theorem repeatLoop_related (h : Simulates Rel env env') (src : String)
    {condition condition' : Scope → Routine (Except Abort Number)}
    {body body' step step' : Scope → Execution}
    (hcondition : ∀ scope, Rel (condition scope) (condition' scope))
    (hbody : ∀ scope, Rel (body scope) (body' scope))
    (hstep : ∀ scope, Rel (step scope) (step' scope)) (left left' : Nat)
    (hleft : left' + env.maxIterations.toNat = left + env'.maxIterations.toNat) (scope : Scope) :
    Rel (repeatLoop env src condition body step left scope)
      (repeatLoop env' src condition' body' step' left' scope) := by
  induction left generalizing scope left' with
  | zero =>
      unfold repeatLoop
      refine h.withNumber (hcondition scope) scope fun c => ?_
      split
      · exact h.pure rfl
      · refine h.runaway src scope _ fun hsame => ?_
        have hnone : left' = 0 := by
          rw [hsame] at hleft
          omega
        subst hnone
        simp [reportRunaway, hsame]
  | succ left ih =>
      -- the other loop may repeat once more as well, because it may repeat no less often
      obtain ⟨more, rfl⟩ : ∃ more, left' = more + 1 := by
        have := h.limit
        exact ⟨left' - 1, by omega⟩
      unfold repeatLoop
      refine h.withNumber (hcondition scope) scope fun c => ?_
      split
      · exact h.pure rfl
      · refine h.followed (h.inChild scope hbody) (fun _ _ => rfl) (fun _ _ => rfl) ?_
        rintro ⟨after, ending⟩ hending
        cases ending with
        | completed | continued =>
            refine h.followed (hstep after) (fun _ _ => rfl) (fun _ _ => rfl) ?_
            rintro ⟨last, ending⟩ hending
            cases ending with
            | completed => exact h.afterYield last (ih more (by omega) last)
            | aborted cause => cases hending
            | _ => exact h.pure rfl
        | aborted cause => cases hending
        | _ => exact h.pure rfl

mutual

theorem exec_related (h : Simulates Rel env env') :
    ∀ (s : Stmt) (scope : Scope), Rel (exec env scope s) (exec env' scope s)
  | .simple s, scope => by
      simp only [exec]
      exact execDeed_related h scope s.deed
  | .branch src condition yes no, scope => by
      simp only [exec]
      refine h.withNumber (evaluate_related h scope condition) scope fun c => ?_
      split
      · exact h.inChild scope fun inner => execBlock_related h yes inner
      · exact execOther_related h no scope
  | .whileLoop src condition body, scope => by
      simp only [exec]
      exact repeatLoop_related h src (fun inner => evaluate_related h inner condition)
        (fun inner => execBlock_related h body inner) (fun inner => h.pure rfl) _ _
        (Nat.add_comm _ _) scope
  | .forLoop src start condition next body, scope => by
      simp only [exec]
      refine h.inChild scope fun inner => ?_
      refine h.followed (execClause_related h inner start) (fun _ _ => rfl) (fun _ _ => rfl) ?_
      rintro ⟨after, ending⟩ hending
      cases ending with
      | completed =>
          refine repeatLoop_related h src (fun scope => ?_)
            (fun scope => execBlock_related h body scope)
            (fun scope => execClause_related h scope next) _ _ (Nat.add_comm _ _) after
          cases condition with
          | none => exact h.pure rfl
          | some e => exact evaluate_related h scope e
      | aborted cause => cases hending
      | _ => exact h.pure rfl
  | .block src body, scope => by
      simp only [exec]
      exact h.inChild scope fun inner => execBlock_related h body inner

theorem execBlock_related (h : Simulates Rel env env') :
    ∀ (body : List Stmt) (scope : Scope), Rel (execBlock env scope body) (execBlock env' scope body)
  | [], scope => by
      simp only [execBlock]
      exact h.pure rfl
  | stmt :: rest, scope => by
      simp only [execBlock]
      refine h.followed (exec_related h stmt scope) (fun _ _ => rfl) (fun _ _ => rfl) ?_
      rintro ⟨after, ending⟩ hending
      cases ending with
      | completed => exact h.afterYield after (execBlock_related h rest after)
      | aborted cause => cases hending
      | _ => exact h.pure rfl

theorem execOther_related (h : Simulates Rel env env') :
    ∀ (body : Option (List Stmt)) (scope : Scope),
      Rel (execOther env scope body) (execOther env' scope body)
  | none, scope => by
      simp only [execOther]
      exact h.pure rfl
  | some body, scope => by
      simp only [execOther]
      exact h.inChild scope fun inner => execBlock_related h body inner

end

/-! ### Calls -/

/-- Call a function with what its body needs to know given. -/
def Function.activateIn (f : Function) (env : Env) (args : List Number) :
    Routine (Except Abort Number) :=
  (Routine.perform (.enter f.name)).bind fun _ =>
    (execBlock env [bindParams f.signature.params args []] f.body).bind fun (_, ending) =>
      (Routine.perform .leave).bind fun _ => ending.result f.name

/-- What the body of a function needs to know where so many calls may nest inside it. -/
def envWithin (functions : Table Function) (options : Options) (left : Nat) : Env :=
  { functions, call := activate functions options left, maxIterations := options.maxIterations }

/-- A call that may nest once more runs the body of the function. -/
theorem activate_succ (functions : Table Function) (options : Options) (left : Nat) (f : Function)
    (args : List Number) : activate functions options (left + 1) f args =
      f.activateIn (envWithin functions options left) args :=
  rfl

theorem activateIn_related (h : Simulates Rel env env') (f : Function) (args : List Number) :
    Rel (f.activateIn env args) (f.activateIn env' args) := by
  refine h.act _ ?_
  apply h.bind (execBlock_related h f.body _)
  · rintro ⟨scope, ending⟩ cause hcause
    cases ending with
    | aborted stopped => exact ⟨.error stopped, hcause, .silent (by simp) (.done rfl), rfl⟩
    | _ => cases hcause
  · rintro ⟨scope, ending⟩ - hending
    refine h.act _ ?_
    cases ending with
    | broke => exact h.record_bind _ (h.pure rfl)
    | continued => exact h.record_bind _ (h.pure rfl)
    | aborted cause => cases hending
    | _ => exact h.pure rfl

end ToyC
