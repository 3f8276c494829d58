import ToyC.Proofs.Run.Escape

/-!
Arithmetic assignments. An update of a variable stores what the assignment stores that
spells its operation out, on numbers of either kind, and ends in the same way; a zero
divisor stores zero in both. There is one exception: an operand that is a zero of the
doubles takes part as the integer zero, so an integer stays an integer.
-/

namespace ToyC

open Routine

/-- `x = x op (e)`, which the assignment `x op= e` is short for. -/
def Change.spelledOut (pos namePos : Position) (target : String) (op : ArithOp) (e : Expr) :
    Change :=
  .set (.binary pos (.arith op) (.name namePos target) e)

/-- What is left when the result of an operation has been stored. A mistake stores zero. -/
def Scope.stored (target : String) (scope : Scope) : Except Failure Number → Scope × Ending
  | .ok a => (scope.set target a, .completed)
  | .error (.mistake _) => (scope.set target 0, .completed)
  | .error (.fault f) => (scope, .aborted (.fault f))

variable {env : Env} {scope : Scope} {target : String} {current value : Number} {e : Expr}
  {cancels : List Sight → Bool} {seen after : List Sight}

theorem evaluate_live_of_number
    (h : (eval env scope e).run.live cancels seen = (after, .ok (.number value))) :
    (evaluate env scope e).live cancels seen = (after, .ok value) := by
  rw [evaluate, Evaluation.number_live, h]
  rfl

/-- What is stored where a variable is declared. -/
theorem withNumber_updated_live (scope : Scope) (target : String) (op : ArithOp)
    (current value : Number) (cancels : List Sight → Bool) (seen : List Sight) :
    (Execution.withNumber scope (updated op current value) fun a =>
      .done (scope.set target a, .completed)).live cancels seen =
      (seen, scope.stored target
        (Number.combine op current (if value.isZero then 0 else value))) := by
  unfold updated
  cases Number.combine op current (if value.isZero then 0 else value) with
  | ok a => rfl
  | error failure => cases failure <;> rfl

/-- An update computes with its operand, or with the integer zero in place of a zero. -/
theorem assign_update_live (hdeclared : Scope.get? target scope = some current)
    (h : (eval env scope e).run.live cancels seen = (after, .ok (.number value)))
    (op : ArithOp) :
    (assign env scope target (.update op e)).live cancels seen =
      (after, scope.stored target
        (Number.combine op current (if value.isZero then 0 else value))) := by
  have hassign : assign env scope target (.update op e) =
      (evaluate env scope e).bind fun result =>
        Execution.withNumber scope (.done result) fun a =>
          Execution.withNumber scope (updated op current a) fun b =>
            .done (scope.set target b, .completed) := by
    simp only [assign, hdeclared]
    rfl
  rw [hassign, live_bind, evaluate_live_of_number h]
  exact withNumber_updated_live scope target op current value cancels after

/-- The number of an operation on a variable, spelled out. -/
theorem eval_spelledOut_live (hdeclared : Scope.get? target scope = some current)
    (h : (eval env scope e).run.live cancels seen = (after, .ok (.number value)))
    (pos namePos : Position) (op : ArithOp) :
    (eval env scope (.binary pos (.arith op) (.name namePos target) e)).run.live cancels seen =
      (Evaluation.ofResult (Number.combine op current value) >>= fun a =>
        return Value.number a).run.live cancels after := by
  simp only [eval, hdeclared]
  change (Routine.bind (eval env scope e).run _).live cancels seen = _
  rw [live_bind, h]
  rfl

/-- An assignment that spells an operation out computes with its operand. -/
theorem assign_spelledOut_live (hdeclared : Scope.get? target scope = some current)
    (h : (eval env scope e).run.live cancels seen = (after, .ok (.number value)))
    (pos namePos : Position) (op : ArithOp) :
    (assign env scope target (.spelledOut pos namePos target op e)).live cancels seen =
      (after, scope.stored target (Number.combine op current value)) := by
  have hassign : assign env scope target (.spelledOut pos namePos target op e) =
      (evaluate env scope (.binary pos (.arith op) (.name namePos target) e)).bind fun result =>
        Execution.withNumber scope (.done result) fun a =>
          .done (scope.set target a, .completed) := by
    simp only [Change.spelledOut, assign, hdeclared]
    rfl
  rw [hassign, live_bind, evaluate, Evaluation.number_live,
    eval_spelledOut_live hdeclared h pos namePos op]
  cases Number.combine op current value with
  | ok a => rfl
  | error failure => cases failure <;> rfl

/-! ### Zeros of the doubles -/

namespace Number

/-- An operand that an update leaves as it is. A zero of the doubles is one only as a divisor, or
where it is the positive zero beside a double. -/
def IsKept (op : ArithOp) (current value : Number) : Prop :=
  value.isZero = true → value = 0 ∨ (op = .div ∨ op = .rem) ∨
    value = .float 0.0 ∧ ∃ x, current = .float x

theorem combine_zero_divisor {op : ArithOp} (hop : op = .div ∨ op = .rem) {value : Number}
    (hzero : value.isZero = true) (current : Number) :
    combine op current value = .error (.mistake .divisionByZero) := by
  unfold combine
  rw [if_pos ⟨hop, hzero⟩]

/-- Beside a double the integer zero becomes the positive zero. -/
theorem combine_float_zero (op : ArithOp) (x : Float) :
    combine op (.float x) 0 = combine op (.float x) (.float 0.0) := by
  have hzero : toFloat 0 = .ok 0.0 := rfl
  have hfloats : toFloats (.float x) 0 = toFloats (.float x) (.float 0.0) := by
    simp only [toFloats, hzero]
    rfl
  cases op with
  | div | rem => rw [combine_zero_divisor (by simp) rfl, combine_zero_divisor (by simp) (by decide)]
  | _ => exact congrArg (· >>= _) hfloats

theorem IsKept.combine_eq {op : ArithOp} {current value : Number} (h : IsKept op current value) :
    combine op current (if value.isZero then 0 else value) = combine op current value := by
  split
  · rename_i hzero
    obtain rfl | hop | ⟨rfl, x, rfl⟩ := h hzero
    · rfl
    · rw [combine_zero_divisor hop hzero, combine_zero_divisor hop rfl]
    · exact combine_float_zero op x
  · rfl

end Number

/-- Wherever a variable is declared and an expression comes to a number, an update leaves what the
assignment leaves that spells it out: the same scopes with the same kinds of numbers, the same that
is seen, and the same ending. A zero divisor stores zero. The exception is a zero of the doubles: it
takes part as the integer zero, which tells in sums and products with an integer, and with a
negative zero. -/
theorem exec_update_eq_spelledOut (hdeclared : Scope.get? target scope = some current)
    (h : (eval env scope e).run.live cancels seen = (after, .ok (.number value)))
    (src src' : String) (pos namePos : Position) (op : ArithOp) :
    let update := (exec env scope (.simple ⟨src, .assigns target (.update op e)⟩)).live cancels seen
    let spelledOut := (exec env scope
      (.simple ⟨src', .assigns target (.spelledOut pos namePos target op e)⟩)).live cancels seen
    let withZero := (exec env scope (.simple ⟨src', .assigns target
      (.spelledOut pos namePos target op (.literal pos (.number 0)))⟩)).live cancels after
    (Number.IsKept op current value → update = spelledOut) ∧
    (value.isZero = true → update = withZero) ∧
    (value.isZero = true → op = .div ∨ op = .rem →
      update = (after, scope.set target 0, .completed)) := by
  have hupdate := assign_update_live hdeclared h op
  have hspelledOut := assign_spelledOut_live hdeclared h pos namePos op
  have hliteral : (eval env scope (.literal pos (.number 0))).run.live cancels after =
      (after, .ok (.number 0)) := by
    simp only [eval]
    rfl
  have hwithZero := assign_spelledOut_live hdeclared hliteral pos namePos op
  simp only [exec, execDeed]
  refine ⟨fun hkept => ?_, fun hzero => ?_, fun hzero hop => ?_⟩
  · rw [hupdate, hspelledOut, hkept.combine_eq]
  · rw [hupdate, hwithZero, if_pos hzero]
  · rw [hupdate, if_pos hzero, Number.combine_zero_divisor hop rfl]
    rfl

/-- Divided by a zero of the doubles, a variable holds zero. -/
theorem exec_update_eq_spelledOut_zeroDivisor :
    let env := Program.env ⟨[], []⟩ {}
    let scope : Scope := [[("x", 5)]]
    let zero : Expr := .literal {} (.number (.float 0.0))
    let spelledOut : Simple := ⟨"x = x % (0.0)", .assigns "x" (.spelledOut {} {} "x" .rem zero)⟩
    Scope.get? "x" scope = some 5 ∧
    (eval env scope zero).run.live (fun _ => false) [] = ([], .ok (.number (.float 0.0))) ∧
    (exec env scope (.simple spelledOut)).live (fun _ => false) [] =
      ([], [[("x", 0)]], .completed) := by
  intro env scope zero spelledOut
  have hdeclared : Scope.get? "x" scope = some 5 := rfl
  have hzero : (eval env scope zero).run.live (fun _ => false) [] =
      ([], .ok (.number (.float 0.0))) := by
    simp only [zero, eval]
    rfl
  obtain ⟨hsame, -, hdivisor⟩ :=
    exec_update_eq_spelledOut hdeclared hzero "x %= 0.0" spelledOut.src {} {} .rem
  refine ⟨hdeclared, hzero, ?_⟩
  have hkept : Number.IsKept .rem 5 (.float 0.0) := fun _ => .inr (.inl (.inr rfl))
  exact (hsame hkept).symm.trans (hdivisor (by decide) (.inr rfl))

/-- The sum of an integer and the positive zero of the doubles. -/
theorem combine_five_zero : Number.combine .add 5 (.float 0.0) = .ok (.float 5.0) := rfl

/-- An integer to which a zero of the doubles is added stays an integer, but the sum spelled out is
a double. -/
theorem exec_update_ne_spelledOut :
    ¬ ∀ (env : Env) (scope : Scope) (target : String) (current value : Number) (e : Expr)
      (op : ArithOp) (cancels : List Sight → Bool) (seen after : List Sight),
      Scope.get? target scope = some current →
      (eval env scope e).run.live cancels seen = (after, .ok (.number value)) →
      (exec env scope (.simple ⟨"", .assigns target (.update op e)⟩)).live cancels seen =
        (exec env scope (.simple ⟨"", .assigns target (.spelledOut {} {} target op e)⟩)).live
          cancels seen := by
  intro hsame
  have hdeclared : Scope.get? "x" [[("x", 5)]] = some 5 := rfl
  have hzero : (eval (Program.env ⟨[], []⟩ {}) [[("x", 5)]]
      (.literal {} (.number (.float 0.0)))).run.live (fun _ => false) [] =
        ([], .ok (.number (.float 0.0))) := by
    simp only [eval]
    rfl
  have h := hsame _ _ "x" 5 (.float 0.0) _ .add _ [] [] hdeclared hzero
  simp only [exec, execDeed] at h
  rw [assign_update_live hdeclared hzero, assign_spelledOut_live hdeclared hzero,
    combine_five_zero] at h
  cases h

end ToyC
