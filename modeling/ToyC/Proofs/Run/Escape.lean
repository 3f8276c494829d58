import ToyC.Proofs.Run.Simulation

/-!
What leaves the evaluation of an expression. A mistake is worth zero wherever it is made,
and so is text. An abort passes: that of a called function, and three faults of the
expression itself. They are an integer beyond the doubles that meets a double, a remainder
of an infinite number, and a power that fails where an operand is too long to be named in
the message.
-/

namespace ToyC

/-! ### Occurrences -/

namespace Expr

mutual

/-- The operators between two operands that occur in an expression. -/
def operators : Expr → List BinaryOp
  | .literal .. | .name .. | .invalid _ => []
  | .unary _ _ e => e.operators
  | .binary _ op left right => op :: (left.operators ++ right.operators)
  | .call _ _ args => operatorsAmong args

def operatorsAmong : List Expr → List BinaryOp
  | [] => []
  | e :: rest => e.operators ++ operatorsAmong rest

end

mutual

/-- The names of the functions that an expression calls. -/
def callees : Expr → List String
  | .literal .. | .name .. | .invalid _ => []
  | .unary _ _ e => e.callees
  | .binary _ _ left right => left.callees ++ right.callees
  | .call _ func args => func :: calleesAmong args

def calleesAmong : List Expr → List String
  | [] => []
  | e :: rest => e.callees ++ calleesAmong rest

end

end Expr

open Routine

/-! ### What an expression is worth -/

namespace Evaluation

/-- What an expression is worth to a statement by the way its evaluation ends. -/
def worth : Except Stop Value → Except Abort Number
  | .ok (.number a) => .ok a
  | .ok (.text _) => .ok 0
  | .error (.mistake _) => .ok 0
  | .error (.abort cause) => .error cause

theorem number_live (p : Evaluation Value) (cancels : List Sight → Bool) (seen : List Sight) :
    (number p).live cancels seen =
      ((p.run.live cancels seen).1, worth (p.run.live cancels seen).2) := by
  simp only [number, absorb, live_bind]
  match (p.run.live cancels seen).2 with
  | .ok (.number a) | .ok (.text s) | .error (.mistake cause) | .error (.abort cause) => rfl

end Evaluation

/-! ### Aborts of a kind -/

/-- However it starts, a routine aborts only for a cause of a kind, which may depend on what has
been seen by then. -/
def AbortsOnly {α : Type} [Abortable α] (cancels : List Sight → Bool)
    (kind : List Sight → Abort → Prop) (p : Routine α) : Prop :=
  ∀ seen cause, abort? (p.live cancels seen).2 = some cause → kind (p.live cancels seen).1 cause

variable {cancels : List Sight → Bool} {kind : List Sight → Abort → Prop}

namespace AbortsOnly

theorem pure {α : Type} [Abortable α] {a : α} (ha : abort? a = none) :
    AbortsOnly cancels kind (.done a) := by
  intro seen cause h
  simp [ha] at h

theorem fault {α : Type} [Abortable α] {a : α} {f : Fault} (ha : abort? a = some (.fault f))
    (hf : ∀ seen, kind seen (.fault f)) : AbortsOnly cancels kind (.done a) := by
  intro seen cause h
  rw [live_done, ha] at h
  cases h
  exact hf seen

/-- What follows an abort passes it on. -/
theorem bind {α β : Type} [Abortable α] [Abortable β] {p : Routine α} {next : α → Routine β}
    (hp : AbortsOnly cancels kind p)
    (stop : ∀ a cause, abort? a = some cause → ∃ b, abort? b = some cause ∧ (next a).Settles b)
    (go : ∀ a, p.Gives a → abort? a = none → AbortsOnly cancels kind (next a)) :
    AbortsOnly cancels kind (p.bind next) := by
  intro seen cause h
  rw [live_bind] at h ⊢
  cases ha : abort? (p.live cancels seen).2 with
  | none => exact go _ (gives_live cancels p seen) ha _ _ h
  | some stopped =>
      obtain ⟨b, hb, hsettles⟩ := stop _ stopped ha
      rw [hsettles.live] at h ⊢
      rw [hb] at h
      cases h
      exact hp seen _ ha

variable {α β : Type}

theorem andThen {p : Evaluation α} {next : α → Evaluation β}
    (hp : AbortsOnly cancels kind p.run)
    (hnext : ∀ a, p.run.Gives (.ok a) → AbortsOnly cancels kind (next a).run) :
    AbortsOnly cancels kind (p >>= next).run := by
  apply hp.bind
  · rintro ((cause | cause) | a) stopped h
    · cases h
    · exact ⟨.error (.abort cause), h, .done rfl⟩
    · cases h
  · rintro ((cause | cause) | a) hgives h
    · exact pure rfl
    · cases h
    · exact hnext a hgives

/-- What follows the number of an operand. -/
theorem andOperand {p : Evaluation Value} (hp : AbortsOnly cancels kind p.run)
    {next : Number → Evaluation β} (hnext : ∀ a, AbortsOnly cancels kind (next a).run) :
    AbortsOnly cancels kind (p >>= fun value => Evaluation.operand value >>= next).run := by
  refine hp.andThen fun value _ => andThen ?_ fun a _ => hnext a
  cases value <;> exact pure rfl

theorem ofResult {result : Except Failure α}
    (h : ∀ f, result = .error (.fault f) → ∀ seen, kind seen (.fault f)) :
    AbortsOnly cancels kind (Evaluation.ofResult result).run := by
  match result, h with
  | .ok a, _ => exact pure rfl
  | .error (.mistake cause), _ => exact pure rfl
  | .error (.fault f), h => exact fault rfl (h f rfl)

theorem ofCall {p : Routine (Except Abort α)} (hp : AbortsOnly cancels kind p) :
    AbortsOnly cancels kind (Evaluation.ofCall p).run := by
  apply hp.bind
  · rintro (cause | a) stopped h
    · exact ⟨.error (.abort cause), h, .done rfl⟩
    · cases h
  · rintro (cause | a) _ h
    · cases h
    · exact pure rfl

theorem number {p : Evaluation Value} (hp : AbortsOnly cancels kind p.run) :
    AbortsOnly cancels kind (Evaluation.number p) := by
  intro seen cause h
  have hstop := hp seen cause
  rw [Evaluation.number_live] at h ⊢
  match hresult : (p.run.live cancels seen).2 with
  | .ok (.number a) | .ok (.text s) | .error (.mistake mistake) =>
      rw [hresult] at h
      cases h
  | .error (.abort stopped) =>
      rw [hresult] at h hstop
      exact hstop h

end AbortsOnly

/-! ### Aborts of an expression -/

/-- A kind of aborts takes in those of the functions called by name, and the faults of operators and
of raising to a power. -/
structure Admits (env : Env) (cancels : List Sight → Bool) (kind : List Sight → Abort → Prop)
    (callees : List String) (operators : List BinaryOp) : Prop where
  call {func : String} (hfunc : func ∈ callees) {f : Function}
    (hf : Table.get? func env.functions = some f) (args : List Number) :
    AbortsOnly cancels kind (env.call f args)
  arith {op : ArithOp} (hop : .arith op ∈ operators) {a b : Number} {f : Fault}
    (h : Number.combine op a b = .error (.fault f)) (seen : List Sight) : kind seen (.fault f)
  power (hpow : Builtin.pow.name ∈ callees) {base exponent : Number} {f : Fault}
    (h : Number.power base exponent = .error (.fault f)) (seen : List Sight) : kind seen (.fault f)

variable {env : Env} {callees callees' : List String} {operators operators' : List BinaryOp}

theorem Admits.mono (h : Admits env cancels kind callees operators) (hcallees : callees' ⊆ callees)
    (hoperators : operators' ⊆ operators) : Admits env cancels kind callees' operators' where
  call hfunc := h.call (hcallees hfunc)
  arith hop := h.arith (hoperators hop)
  power hpow := h.power (hcallees hpow)

theorem Builtin.name_of_ofName? {func : String} {g : Builtin} (h : Builtin.ofName? func = some g) :
    func = g.name := by
  have hname := List.find?_some h
  simpa using Eq.symm (by simpa using hname)

theorem Admits.applyNumbers (h : Admits env cancels kind callees operators) {g : Builtin}
    (hg : g.name ∈ callees) {values : List Number} (hcount : values.length = g.arity) {f : Fault}
    (hf : g.applyNumbers values = .error (.fault f)) (seen : List Sight) :
    kind seen (.fault f) := by
  cases g with
  | pow =>
      match values, hcount with
      | [base, exponent], _ => exact h.power hg hf seen

mutual

theorem eval_abortsOnly (scope : Scope) : ∀ e : Expr,
    Admits env cancels kind e.callees e.operators → AbortsOnly cancels kind (eval env scope e).run
  | .literal pos value, _ => by
      simp only [eval]
      exact .pure rfl
  | .name pos ident, _ => by
      simp only [eval]
      split <;> exact .pure rfl
  | .unary pos op e, h => by
      simp only [eval]
      exact (eval_abortsOnly scope e h).andOperand fun a => .pure rfl
  | .binary pos op left right, h => by
      simp only [Expr.callees, Expr.operators] at h
      have hleft := eval_abortsOnly scope left (h.mono (by simp) (by simp))
      have hright := eval_abortsOnly scope right (h.mono (by simp) (by simp))
      cases op with
      | or =>
          simp only [eval]
          refine hleft.andOperand fun a => ?_
          split
          · exact .pure rfl
          · exact hright.andOperand fun b => .pure rfl
      | and =>
          simp only [eval]
          refine hleft.andOperand fun a => ?_
          split
          · exact hright.andOperand fun b => .pure rfl
          · exact .pure rfl
      | compare test =>
          simp only [eval]
          exact hleft.andOperand fun a => hright.andOperand fun b =>
            (AbortsOnly.ofResult fun f hf => by cases hf).andThen fun c _ => .pure rfl
      | arith op =>
          simp only [eval]
          exact hleft.andOperand fun a => hright.andOperand fun b =>
            (AbortsOnly.ofResult fun f hf => h.arith List.mem_cons_self hf).andThen
              fun c _ => .pure rfl
  | .call pos func args, h => by
      have hfunc : func ∈ (Expr.call pos func args).callees := by simp [Expr.callees]
      have hargs := evalArgs_abortsOnly scope args
        (h.mono (List.subset_cons_self _ _) (List.Subset.refl _))
      simp only [eval]
      split
      · rename_i f hf
        exact hargs.andThen fun values _ =>
          (AbortsOnly.ofCall (h.call hfunc hf values)).andThen fun a _ => .pure rfl
      · split
        · rename_i builtin hbuiltin
          split
          · exact .pure rfl
          · rename_i hcount
            refine hargs.andThen fun values hgives =>
              (AbortsOnly.ofResult fun f hf => ?_).andThen fun a _ => .pure rfl
            have hlength : values.length = builtin.arity :=
              (length_of_gives_evalArgs hgives).trans (Decidable.not_not.mp hcount)
            exact h.applyNumbers (Builtin.name_of_ofName? hbuiltin ▸ hfunc) hlength hf
        · exact .pure rfl
  | .invalid text, _ => by
      simp only [eval]
      exact .pure rfl

theorem evalArgs_abortsOnly (scope : Scope) : ∀ args : List Expr,
    Admits env cancels kind (Expr.calleesAmong args) (Expr.operatorsAmong args) →
      AbortsOnly cancels kind (evalArgs env scope args).run
  | [], _ => by
      simp only [evalArgs]
      exact .pure rfl
  | arg :: rest, h => by
      simp only [Expr.calleesAmong, Expr.operatorsAmong] at h
      have harg := eval_abortsOnly scope arg (h.mono (by simp) (by simp))
      have hrest := evalArgs_abortsOnly scope rest (h.mono (by simp) (by simp))
      simp only [evalArgs]
      exact (AbortsOnly.ofCall harg.number).andThen fun a _ => hrest.andThen fun more _ => .pure rfl

end

/-! ### What leaves an expression -/

/-- The ways in which an abort comes out of an expression, with all that is seen by then. -/
inductive Escapes (env : Env) (cancels : List Sight → Bool) (callees : List String)
    (operators : List BinaryOp) (seen : List Sight) : Abort → Prop
  /-- a function that is called ends so -/
  | called {func : String} {f : Function} {args : List Number} {before : List Sight} {cause : Abort}
      (hfunc : func ∈ callees) (hf : Table.get? func env.functions = some f)
      (h : (env.call f args).live cancels before = (seen, .error cause)) :
      Escapes env cancels callees operators seen cause
  /-- the operands of an operator have no common doubles, or no remainder -/
  | overwhelmed {op : ArithOp} {a b : Number} {f : Fault} (hop : .arith op ∈ operators)
      (h : Number.combine op a b = .error (.fault f)) (hcause : Number.Overwhelms op a b f) :
      Escapes env cancels callees operators seen (.fault f)
  /-- a power fails, and the message cannot be written -/
  | unnamed {base exponent : Number} (hpow : "pow" ∈ callees)
      (h : Number.power base exponent = .error (.fault .tooManyDigits))
      (hlong : base.IsTooLong ∨ exponent.IsTooLong) :
      Escapes env cancels callees operators seen (.fault .tooManyDigits)

theorem escapes_admits (env : Env) (cancels : List Sight → Bool) (callees : List String)
    (operators : List BinaryOp) :
    Admits env cancels (Escapes env cancels callees operators) callees operators where
  call {func} hfunc {f} hf args := by
    intro seen cause h
    match hended : (env.call f args).live cancels seen with
    | (after, .ok a) =>
        rw [hended] at h
        cases h
    | (after, .error stopped) =>
        rw [hended] at h
        cases h
        exact .called hfunc hf hended
  arith hop _ _ _ h seen := .overwhelmed hop h (Number.combine_eq_fault_iff.mp h).1
  power hpow _ _ _ h seen := by
    obtain ⟨rfl, hlong⟩ := Number.power_eq_fault h
    exact .unnamed hpow h hlong

/-- However a run is cancelled, an expression in a statement comes to a number, or it ends by an
abort of a function that it calls, or by one of the three faults. A mistake and a text are worth
zero: a division by zero, an unknown name, a power that fails and is named. -/
theorem evaluate_escapes (env : Env) (scope : Scope) (e : Expr) (cancels : List Sight → Bool)
    (seen : List Sight) :
    let ended := (evaluate env scope e).live cancels seen
    ((∃ a, ended.2 = .ok a) ∨
      ∃ cause, ended.2 = .error cause ∧
        Escapes env cancels e.callees e.operators ended.1 cause) ∧
    let reached := (eval env scope e).run.live cancels seen
    ended.1 = reached.1 ∧ (∀ a, reached.2 = .ok (.number a) → ended.2 = .ok a) ∧
      (∀ s, reached.2 = .ok (.text s) → ended.2 = .ok 0) ∧
      ∀ cause, reached.2 = .error (.mistake cause) → ended.2 = .ok 0 := by
  intro ended
  have hended : ended = ((eval env scope e).run.live cancels seen).map id Evaluation.worth :=
    Evaluation.number_live _ cancels seen
  refine ⟨?_, by rw [hended]; rfl, ?_, ?_, ?_⟩
  · have honly := (eval_abortsOnly scope e
      (escapes_admits env cancels e.callees e.operators)).number seen
    cases hresult : ended.2 with
    | ok a => exact .inl ⟨a, rfl⟩
    | error cause =>
        refine .inr ⟨cause, rfl, honly cause ?_⟩
        change abort? ended.2 = _
        rw [hresult]
        rfl
  all_goals
    intro a h
    rw [hended, Prod.map_snd, h]
    rfl

/-- The sum of a double and an integer beyond the doubles. -/
def Expr.sumBeyond (x : Float) (n : Int) : Expr :=
  .binary {} (.arith .add) (.literal {} (.number (.float x))) (.literal {} (.number (.int n)))

theorem evaluate_sumBeyond (env : Env) (scope : Scope) (x : Float) {n : Int}
    (hn : Decimal.ofInt? n = none) :
    (evaluate env scope (.sumBeyond x n)).outcome = .error (.fault .beyondDouble) := by
  have hsum : Number.operate (.arith .add) (.float x) (.int n) = .error (.fault .beyondDouble) :=
    Number.combine_of_overwhelms (.right x hn) (by simp)
  have heval : (eval env scope (.sumBeyond x n)).run =
      (Evaluation.ofResult (Number.operate (.arith .add) (.float x) (.int n)) >>= fun a =>
        return .number a).run := by
    simp only [Expr.sumBeyond, eval]
    rfl
  rw [evaluate, Evaluation.number, Evaluation.absorb, heval, hsum]
  rfl

/-- Not every failure of arithmetic is absorbed: the sum of a double and an integer beyond the
doubles has no number, although no function is called. -/
theorem evaluate_not_absorbed :
    ¬ ∀ (p : Program) (options : Options) (scope : Scope) (e : Expr),
      let result := ((evaluate (p.env options) scope e).observe {}).2
      (∃ a, result = .ok a) ∨ result = .error .cancelled ∨
        ∃ function depth, result = .error (.tooDeep function depth) := by
  intro habsorbed
  have hbeyond : Decimal.ofInt? (10 ^ 400) = none := by
    rw [← Option.isNone_iff_eq_none]
    decide +kernel
  have hresult := evaluate_sumBeyond (Program.env ⟨[], []⟩ {}) [[]] 1.0 hbeyond
  obtain ⟨a, h⟩ | h | ⟨function, depth, h⟩ :=
    habsorbed ⟨[], []⟩ {} [[]] (.sumBeyond 1.0 (10 ^ 400))
  all_goals
    rw [(observe_uncancelled _).2, hresult] at h
    cases h

end ToyC
