import ToyC.Proofs.Run.Ending
import ToyC.Proofs.Run.Visibility
import ToyC.Run.Call

/-!
A `for` loop is short for a `while` loop in a block: the first clause stands in front of the
loop, and the last one at the end of its body, which is a block of its own. Both print the
same, leave the same bindings and end in the same way, also where the loop may not repeat
again. It takes that no `continue` of the body is meant for the loop, because it would skip
the last clause, and that the last clause only assigns, prints or calls.
-/

namespace ToyC

/-! ### Routines that print the same -/

namespace Routine

variable {α α' β β' : Type}

/-- Two routines that print the same when they are never cancelled, and give related values. -/
structure Echoes (R : α → β → Prop) (p : Routine α) (q : Routine β) : Prop where
  chunks : Sight.chunks p.sights = Sight.chunks q.sights
  outcome : R p.outcome q.outcome

namespace Echoes

variable {R : α → β → Prop} {S : α' → β' → Prop} {p : Routine α} {q : Routine β}

theorem done {a : α} {b : β} (h : R a b) : Echoes R (.done a) (.done b) :=
  ⟨rfl, h⟩

theorem bind (h : Echoes R p q) {next : α → Routine α'} {next' : β → Routine β'}
    (hnext : ∀ a b, R a b → Echoes S (next a) (next' b)) :
    Echoes S (p.bind next) (q.bind next') := by
  obtain ⟨hchunks, houtcome⟩ := hnext _ _ h.outcome
  constructor
  · rw [sights_bind, sights_bind, Sight.chunks_append, Sight.chunks_append, h.chunks, hchunks]
  · rwa [outcome_bind, outcome_bind]

/-- The same routine in front; only the value that it gives matters. -/
theorem behind (p : Routine α) {next : α → Routine α'} {next' : α → Routine β'}
    (h : Echoes S (next p.outcome) (next' p.outcome)) : Echoes S (p.bind next) (p.bind next') :=
  bind (R := fun a b => a = p.outcome ∧ b = p.outcome) ⟨rfl, rfl, rfl⟩ fun _ _ hab =>
    hab.1 ▸ hab.2 ▸ h

theorem of_lockstep (h : Lockstep R p q) : Echoes R p q := by
  obtain ⟨hsights, houtcome⟩ := h.live (fun _ => false) []
  simp only [live_never, List.nil_append] at hsights houtcome
  exact ⟨congrArg Sight.chunks hsights, houtcome⟩

theorem refl (p : Routine α) : Echoes (· = ·) p p :=
  ⟨rfl, rfl⟩

/-- The same routine behind. -/
theorem before {p q : Routine α} (h : Echoes (· = ·) p q) (next : α → Routine β) :
    Echoes (· = ·) (p.bind next) (q.bind next) :=
  h.bind fun _ _ hab => hab ▸ refl _

theorem trans {p q r : Routine α} (h : Echoes (· = ·) p q) (h' : Echoes (· = ·) q r) :
    Echoes (· = ·) p r :=
  ⟨h.chunks.trans h'.chunks, h.outcome.trans h'.outcome⟩

/-- Observed from their start, the two print the same chunks. -/
theorem observe {p q : Routine α} (h : Echoes (· = ·) p q) :
    (p.observe {}).1.chunks = (q.observe {}).1.chunks ∧ (p.observe {}).2 = (q.observe {}).2 := by
  obtain ⟨⟨hp, -⟩, hp'⟩ := observe_uncancelled p
  obtain ⟨⟨hq, -⟩, hq'⟩ := observe_uncancelled q
  exact ⟨Array.toList_inj.mp (hp.trans (h.chunks.trans hq.symm)),
    hp'.trans (h.outcome.trans hq'.symm)⟩

end Echoes

end Routine

open Routine Scope Execution

variable {env : Env} {scope : Scope}

/-! ### The while form -/

/-- A scope is that of a block inside another scope, in which nothing is declared. -/
def Scope.IsEntered (s t : Scope) : Prop :=
  t = s.child

/-- Where nothing is declared inside, a name stands for what it stands for around. -/
theorem indistinct_isEntered : Indistinct IsEntered where
  reads h name := by
    cases h
    rfl
  set h name value := by
    cases h
    rfl

/-- What a `for` loop is short for. -/
def Stmt.whileForm (src loopSrc bodySrc : String) (pos : Position) (start : Option Simple)
    (condition : Option Expr) (next : Option Simple) (body : List Stmt) : Stmt :=
  .block src ((start.map .simple).toList ++
    [.whileLoop loopSrc (condition.getD (.literal pos (.number 1)))
      (.block bodySrc body :: (next.map .simple).toList)])

namespace Execution

/-- Go on where a statement completes. -/
def andThen (p : Execution) (next : Scope → Execution) : Execution :=
  p.bind fun
    | (scope, .completed) => next scope
    | stopped => .done stopped

/-- Leave a block. -/
def leave (p : Execution) : Execution :=
  p.bind fun after => .done (after.1.parent, after.2)

theorem inChild_eq (scope : Scope) (body : Scope → Execution) :
    inChild scope body = (body scope.child).leave := rfl

theorem andThen_completed (p : Execution) :
    (p.andThen fun scope => .done (scope, .completed)) = p := by
  calc
    p.andThen (fun scope => .done (scope, .completed)) = p.bind .done := by
      unfold andThen
      congr
      funext after
      obtain ⟨scope, ending⟩ := after
      cases ending <;> rfl
    _ = p := bind_done p

end Execution

theorem execBlock_cons (stmt : Stmt) (rest : List Stmt) : execBlock env scope (stmt :: rest) =
    (exec env scope stmt).andThen fun inner =>
      afterYield inner fun _ => execBlock env inner rest := by
  simp only [execBlock]
  rfl

namespace Routine.Echoes

theorem withNumber (p : Routine (Except Abort Number)) {next next' : Number → Execution}
    (hnext : ∀ a, Echoes (· = ·) (next a) (next' a)) :
    Echoes (· = ·) (Execution.withNumber scope p next) (Execution.withNumber scope p next') := by
  refine behind p ?_
  split
  · exact hnext _
  · exact refl _

/-- The same execution in front, of which something is known how it ends. -/
theorem behindEnding {P : Ending → Prop} {p : Execution} (hp : P p.outcome.2)
    {next next' : Scope × Ending → Execution}
    (hnext : ∀ s ending, P ending → Echoes (· = ·) (next (s, ending)) (next' (s, ending))) :
    Echoes (· = ·) (p.bind next) (p.bind next') :=
  behind p (hnext p.outcome.1 p.outcome.2 hp)

/-- A yield point prints nothing. -/
theorem afterYield {R : Scope × Ending → Scope × Ending → Prop} {p : Execution}
    {next : Unit → Execution} (h : Echoes R p (next ())) :
    Echoes R p (Execution.afterYield scope next) :=
  ⟨h.chunks, h.outcome⟩

theorem afterYield_leave {R : Scope × Ending → Scope × Ending → Prop} {p : Execution}
    {next : Unit → Execution} (h : Echoes R p (next ()).leave) :
    Echoes R p (Execution.afterYield scope next).leave :=
  ⟨h.chunks, h.outcome⟩

/-- What is done outside a block, beside what is done at the end of the block. -/
theorem andThen_leave {p q : Execution} (h : Alike IsEntered p q) {next next' : Scope → Execution}
    (hnext : ∀ s : Scope, Echoes (· = ·) (next s) (next' s.child).leave) :
    Echoes (· = ·) (p.andThen next) (q.andThen next').leave := by
  unfold Execution.andThen Execution.leave
  rw [Routine.bind_assoc]
  refine (of_lockstep h).bind ?_
  rintro ⟨s, ending⟩ ⟨t, ending'⟩ ⟨⟨rfl⟩, rfl⟩
  cases ending with
  | completed => exact hnext s
  | _ => exact done rfl

end Routine.Echoes

theorem Deed.declaresNothing_of_isStep {deed : Deed} (h : deed.isStep = true) :
    deed.declaresNothing = true := by
  cases deed with
  | declares type ds => cases h
  | _ => rfl

/-- The last clause, at the end of a block in which nothing is declared. -/
theorem execClause_echoes {next : Option Simple} (hnext : next.all (·.deed.isStep) = true)
    (s : Scope) : Echoes (· = ·) (execClause env s next)
      (execBlock env s.child (next.map .simple).toList).leave := by
  cases next with
  | none =>
      simp only [Option.map_none, Option.toList_none, execBlock]
      exact .done rfl
  | some clause =>
      have hdeed : Alike IsEntered (execDeed env s clause.deed)
          (execDeed env s.child clause.deed) :=
        execDeed_alike indistinct_isEntered rfl (Deed.declaresNothing_of_isStep hnext)
      simp only [Option.map_some, Option.toList_some, execBlock_cons, exec]
      rw [execClause, ← andThen_completed (execDeed env s clause.deed)]
      refine .andThen_leave hdeed fun after => ?_
      simp only [execBlock]
      exact ⟨rfl, rfl⟩

/-- One round of the loop: the body and the last clause come to the same in the two forms, although
the body stands one block deeper in the while form, and the last clause inside a block. -/
theorem round_echoes {next : Option Simple} (hnext : next.all (·.deed.isStep) = true)
    (bodySrc : String) (body : List Stmt) (scope : Scope) :
    Echoes (· = ·)
      ((inChild scope fun inner => execBlock env inner body).andThen
        fun inner => execClause env inner next)
      (inChild scope fun inner =>
        execBlock env inner (.block bodySrc body :: (next.map .simple).toList)) := by
  have hentered : Under IsEntered 0 scope scope.child := .outer rfl
  have hbody : Alike (Under IsEntered 0)
      (inChild scope fun inner => execBlock env inner body)
      (inChild scope.child fun inner => execBlock env inner body) :=
    .inChild hentered fun _ _ hin => execBlock_alike indistinct_isEntered body hin
  -- only the last block is opened: the body is the first statement inside it
  rw [inChild_eq scope fun inner => execBlock env inner (.block bodySrc body :: _), execBlock_cons,
    exec]
  exact .andThen_leave (hbody.imp fun _ _ hab => ⟨hab.scopes.outside, hab.ending⟩)
    fun after => .afterYield_leave (execClause_echoes hnext after)

/-- A loop that runs its step behind the body is one whose body ends with the step, if the body does
not skip it by a `continue` and the step does not leave the loop. -/
theorem repeatLoop_echoes {body step body' : Scope → Execution}
    (hround : ∀ s, Echoes (· = ·) ((inChild s body).andThen step) (inChild s body'))
    (hbody : ∀ s, (body s).outcome.2.NotContinued) (hstep : ∀ s, (step s).outcome.2.Inside)
    (src loopSrc : String) (condition : Scope → Routine (Except Abort Number)) (left : Nat)
    (scope : Scope) :
    Echoes (· = ·) (repeatLoop env src condition body step left scope)
      (repeatLoop env loopSrc condition body' (fun inner => .done (inner, .completed)) left
        scope) := by
  induction left generalizing scope with
  | zero =>
      unfold repeatLoop
      refine .withNumber _ fun c => ?_
      split
      · exact .refl _
      · exact ⟨rfl, rfl⟩
  | succ left ih =>
      unfold repeatLoop
      refine .withNumber _ fun c => ?_
      split
      · exact .refl _
      · dsimp only
        -- one round of the while form, but with the other loop behind it
        refine .trans ?_ (.before (hround scope) _)
        unfold andThen
        rw [Routine.bind_assoc]
        refine .behindEnding (inChild_ends (hbody scope.child)) fun after ending hending => ?_
        cases hending with
        | completed =>
            refine .behindEnding (hstep after) fun last ending hending => ?_
            cases hending with
            | completed => exact .behind _ (ih last)
            | aborted cause => exact .refl _
        | _ => exact .refl _

/-! ### The two forms -/

theorem Routine.Echoes.andThen {p q : Execution} (h : Echoes (· = ·) p q)
    {next next' : Scope → Execution} (hnext : ∀ s, Echoes (· = ·) (next s) (next' s)) :
    Echoes (· = ·) (p.andThen next) (q.andThen next') := by
  refine h.bind ?_
  rintro ⟨s, ending⟩ _ rfl
  cases ending with
  | completed => exact hnext s
  | _ => exact done rfl

theorem execBlock_singleton (stmt : Stmt) (s : Scope) :
    Echoes (· = ·) (exec env s stmt) (execBlock env s [stmt]) := by
  rw [execBlock_cons]
  conv =>
    enter [2]
    rw [← andThen_completed (exec env s stmt)]
  refine .andThen (.refl _) fun after => .afterYield ?_
  simp only [execBlock]
  exact .refl _

/-- A first clause in front of a statement. -/
theorem execBlock_start (start : Option Simple) (stmt : Stmt) (s : Scope) :
    Echoes (· = ·) ((execClause env s start).andThen fun inner => exec env inner stmt)
      (execBlock env s ((start.map .simple).toList ++ [stmt])) := by
  cases start with
  | none => exact execBlock_singleton stmt s
  | some clause =>
      simp only [Option.map_some, Option.toList_some, List.cons_append, List.nil_append]
      rw [execBlock_cons]
      simp only [exec]
      exact .andThen (.refl _) fun inner => .afterYield (execBlock_singleton stmt inner)

/-- A missing condition is the number one. -/
theorem exec_forLoop (src : String) (pos : Position) (start : Option Simple)
    (condition : Option Expr) (next : Option Simple) (body : List Stmt) :
    exec env scope (.forLoop src start condition next body) =
      inChild scope fun inner => (execClause env inner start).andThen
        (repeatLoop env src
          (fun inner => evaluate env inner (condition.getD (.literal pos (.number 1))))
          (fun inner => execBlock env inner body) (fun inner => execClause env inner next)
          env.maxIterations.toNat) := by
  cases condition with
  | none =>
      simp only [exec, Option.getD_none, evaluate, eval]
      rfl
  | some e =>
      simp only [exec, Option.getD_some]
      rfl

/-- Never cancelled, a `for` loop prints what its while form prints, leaves the same bindings, and
ends in the same way: by completing, also where it is reported as a loop without end, by a `return`,
by an abort, or by a `break` or `continue` of its first clause. -/
theorem exec_forLoop_eq_whileForm (env : Env) (scope : Scope)
    (src outerSrc loopSrc bodySrc : String) (pos : Position) (start : Option Simple)
    (condition : Option Expr) (next : Option Simple) (body : List Stmt)
    (hnext : next.all (·.deed.isStep) = true) (hbody : Stmt.continuesAmong body = false) :
    let loop := (exec env scope (.forLoop src start condition next body)).observe {}
    let spelledOut := (exec env scope
      (.whileForm outerSrc loopSrc bodySrc pos start condition next body)).observe {}
    loop.1.chunks = spelledOut.1.chunks ∧ loop.2 = spelledOut.2 := by
  apply Echoes.observe
  rw [exec_forLoop src pos, Stmt.whileForm, exec, inChild_eq, inChild_eq]
  refine .before (.trans (.andThen (.refl _) fun inner => ?_) (execBlock_start start _ _)) _
  simp only [exec]
  exact repeatLoop_echoes (round_echoes hnext bodySrc body)
    (fun s => execBlock_notContinued body s hbody) (fun s => execClause_inside hnext s)
    src loopSrc _ _ inner

/-- A loop that counts, around a loop with a `continue` of its own. -/
theorem exec_forLoop_eq_whileForm_counting :
    let env := Program.env ⟨[], []⟩ {}
    let start : Simple := ⟨"int i = 0", .declares "int" [⟨"i", some (.literal {} (.number 0))⟩]⟩
    let condition : Expr := .binary {} (.compare .lt) (.name {} "i") (.literal {} (.number 3))
    let next : Simple := ⟨"i++", .assigns "i" .increment⟩
    let body : List Stmt :=
      [.whileLoop "while (n)" (.name {} "n")
        [.simple ⟨"n--", .assigns "n" .decrement⟩, .simple ⟨"continue", .continues⟩],
        .simple ⟨"printf", .prints "%d" [.name {} "i"]⟩]
    (some next).all (·.deed.isStep) = true ∧ Stmt.continuesAmong body = false ∧
      let loop := (exec env [[("n", 2)]]
        (.forLoop "for" (some start) (some condition) (some next) body)).observe {}
      let spelledOut := (exec env [[("n", 2)]]
        (.whileForm "" "while" "" {} (some start) (some condition) (some next) body)).observe {}
      loop.1.chunks = spelledOut.1.chunks ∧ loop.2 = spelledOut.2 := by
  intro env start condition next body
  have hnext : (some next).all (·.deed.isStep) = true := rfl
  have hbody : Stmt.continuesAmong body = false := rfl
  exact ⟨hnext, hbody, exec_forLoop_eq_whileForm env [[("n", 2)]] "for" "" "while" "" {}
    (some start) (some condition) (some next) body hnext hbody⟩

end ToyC
