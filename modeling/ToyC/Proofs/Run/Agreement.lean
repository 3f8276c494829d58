import ToyC.Proofs.Run.Cost
import ToyC.Proofs.Run.InPlace
import ToyC.Proofs.Run.Lockstep
import ToyC.Proofs.Run.Simulation

/-!
Interpretation in place agrees with the interpreter over chains. With fuel that
covers the cost of what is interpreted it shows and gives the same, and spends no
more than the cost. A statement changes scopes that enclose its own and no others,
and an expression changes none, because a call starts from a scope with nothing
around it.
-/

namespace ToyC.InPlace

open Routine ScopeTree

variable {α β : Type} {c d : Nat} {s : Store} {tree after : ScopeTree} {i : Nat} {scope : Scope}

/-- A scope of a tree stands for a chain. -/
structure Sees (tree : ScopeTree) (i : Nat) (scope : Scope) : Prop where
  lt : i < tree.nodes.length
  chain : tree.chain i = scope

theorem Sees.of_isPrefix (h : Sees tree i scope) (hmore : tree.nodes <+: after.nodes) :
    Sees after i scope :=
  ⟨Nat.lt_of_lt_of_le h.lt hmore.length_le, by rw [chain_of_isPrefix hmore h.lt, h.chain]⟩

theorem run_bind (p : InPlace α) (next : α → InPlace β) (s : Store) :
    ((p >>= next).run s).run = (p.run s).run.bind fun
      | some (a, after) => ((next a).run after).run
      | none => .done none := by
  refine congrArg (Routine.bind (p.run s).run) (funext ?_)
  rintro (_ | ⟨a, after⟩) <;> rfl

/-! ### Reading -/

/-- From a store with fuel for its cost, an interpretation in place does what a routine does, and
the scopes of the store stay as they are. -/
def Reads (c : Nat) (s : Store) (p : InPlace α) (q : Routine α) : Prop :=
  c ≤ s.fuel → Lockstep (fun result value => ∃ after, result = some (value, after) ∧
    s.scopes.nodes <+: after.scopes.nodes ∧ s.fuel ≤ after.fuel + c) (p.run s).run q

namespace Reads

theorem mono {p : InPlace α} {q : Routine α} (h : Reads c s p q) (hle : c ≤ d) :
    Reads d s p q := by
  intro hfuel
  refine (h (Nat.le_trans hle hfuel)).imp ?_
  rintro _ value ⟨after, rfl, hmore, hspent⟩
  exact ⟨after, rfl, hmore, by omega⟩

theorem pure (a : α) : Reads 0 s (Pure.pure a) (.done a) :=
  fun _ => .done ⟨s, rfl, List.prefix_rfl, Nat.le_refl _⟩

theorem lift (p : Routine α) : Reads 0 s (lift p) p := by
  intro _
  have hrun : ((InPlace.lift p).run s).run = p.bind fun a => .done (some (a, s)) :=
    (Routine.bind_assoc p _ _).trans rfl
  have hlockstep : Lockstep (fun result value => ∃ after, result = some (value, after) ∧
      s.scopes.nodes <+: after.scopes.nodes ∧ s.fuel ≤ after.fuel + 0)
      (p.bind fun a => .done (some (a, s))) (p.bind .done) :=
    Lockstep.behind p fun a => .done ⟨s, rfl, List.prefix_rfl, Nat.le_refl _⟩
  rwa [hrun, ← Routine.bind_done p, Routine.bind_assoc]

theorem bind {p : InPlace α} {q : Routine α} (h : Reads c s p q) {next : α → InPlace β}
    {next' : α → Routine β}
    (hnext : ∀ a later, s.scopes.nodes <+: later.scopes.nodes →
      Reads d later (next a) (next' a)) :
    Reads (c + d) s (p >>= next) (q.bind next') := by
  intro hfuel
  rw [run_bind]
  refine Lockstep.bind (h (by omega)) ?_
  rintro _ a ⟨later, rfl, hmore, hspent⟩
  refine (hnext a later hmore (by omega)).imp ?_
  rintro _ value ⟨last, rfl, hlast, hrest⟩
  exact ⟨last, rfl, hmore.trans hlast, by omega⟩

theorem spend : Reads 1 s spend (.done ()) := by
  intro hfuel
  obtain ⟨scopes, _ | left⟩ := s
  · exact absurd hfuel (by simp)
  · exact .done ⟨⟨scopes, left⟩, rfl, List.prefix_rfl, Nat.le_refl _⟩

/-- What follows a unit that is spent. -/
theorem spent {next : Unit → InPlace α} {q : Routine α}
    (h : ∀ later, s.scopes.nodes <+: later.scopes.nodes → Reads c later (next ()) q) :
    Reads (c + 1) s (InPlace.spend >>= next) q := by
  have hbind : Reads (1 + c) s (InPlace.spend >>= next) ((Routine.done ()).bind fun _ => q) :=
    spend.bind fun _ => h
  rwa [Nat.add_comm] at hbind

/-- What follows a result runs only where nothing was aborted. -/
theorem unlessAborted {p : InPlace (Except Abort α)} {q : Routine (Except Abort α)}
    (h : Reads c s p q) {next : Except Abort α → InPlace β} {next' : Except Abort α → Routine β}
    {lost : Abort → β} (stop : ∀ cause, next (.error cause) = Pure.pure (lost cause))
    (stop' : ∀ cause, next' (.error cause) = .done (lost cause))
    (go : ∀ a later, s.scopes.nodes <+: later.scopes.nodes →
      Reads d later (next (.ok a)) (next' (.ok a))) :
    Reads (c + d) s (p >>= next) (q.bind next') := by
  refine h.bind ?_
  rintro (cause | a) later hmore
  · rw [stop, stop']
    exact (pure _).mono (Nat.zero_le _)
  · exact go a later hmore

theorem andThen {p : ExceptT Stop InPlace α} {q : Evaluation α} (h : Reads c s p.run q.run)
    {next : α → ExceptT Stop InPlace β} {next' : α → Evaluation β}
    (hnext : ∀ a later, s.scopes.nodes <+: later.scopes.nodes →
      Reads d later (next a).run (next' a).run) :
    Reads (c + d) s (p >>= next).run (q >>= next').run := by
  apply h.bind
  rintro (stop | a) later hmore
  · exact (pure _).mono (Nat.zero_le _)
  · exact hnext a later hmore

/-- What follows the unit spent on a node of an expression. -/
theorem node {next : Unit → ExceptT Stop InPlace α} {q : Evaluation α}
    (h : ∀ later, s.scopes.nodes <+: later.scopes.nodes → Reads c later (next ()).run q.run) :
    Reads (c + 1) s (ExceptT.lift InPlace.spend >>= next).run q.run := by
  rw [ExceptT.run_bind_lift]
  exact spent h

/-- What follows a look at the scopes. -/
theorem looked {next : Store → ExceptT Stop InPlace α} {q : Routine (Except Stop α)}
    (h : Reads c s (next s).run q) : Reads c s (getThe Store >>= next).run q :=
  h

/-- What follows a look at the fuel. -/
theorem started {next : Store → InPlace α} {q : Routine α} (h : Reads c s (next s) q) :
    Reads c s (get >>= next) q :=
  h

theorem unscoped (p : Evaluation α) : Reads 0 s (unscoped p).run p.run :=
  lift p.run

/-- What follows the number of an operand. -/
theorem andOperand {p : ExceptT Stop InPlace Value} {q : Evaluation Value}
    (h : Reads c s p.run q.run) {next : Number → ExceptT Stop InPlace β}
    {next' : Number → Evaluation β}
    (hnext : ∀ a later, s.scopes.nodes <+: later.scopes.nodes →
      Reads d later (next a).run (next' a).run) :
    Reads (c + d) s (p >>= fun value => InPlace.unscoped (Evaluation.operand value) >>= next).run
      (q >>= fun value => Evaluation.operand value >>= next').run := by
  refine h.andThen fun value _ hmore => ?_
  rw [← Nat.zero_add d]
  exact (unscoped (Evaluation.operand value)).andThen
    fun a last hlast => hnext a last (hmore.trans hlast)

theorem ofCall {p : InPlace (Except Abort α)} {q : Routine (Except Abort α)} (h : Reads c s p q) :
    Reads c s (ofCall p).run (Evaluation.ofCall q).run :=
  h.unlessAborted (d := 0) (fun _ => rfl) (fun _ => rfl) fun _ _ _ => pure _

theorem absorb {p : ExceptT Stop InPlace Value} {q : Evaluation Value} (h : Reads c s p.run q.run)
    (note : EvalError → Note) : Reads c s (absorb note p) (Evaluation.absorb note q) := by
  refine Reads.bind h (d := 0) ?_
  rintro ((cause | cause) | value) later hmore
  · exact (lift (Routine.record (note cause))).bind fun _ _ _ => pure _
  · exact pure _
  · exact pure _

theorem number {p : ExceptT Stop InPlace Value} {q : Evaluation Value}
    (h : Reads c s p.run q.run) : Reads c s (number p) (Evaluation.number q) := by
  refine (h.absorb .degraded).unlessAborted (d := 0) (fun _ => rfl) (fun _ => rfl) ?_
  intro value _ _
  cases value <;> exact pure _

end Reads

/-- An environment in place does in its calls what one for chains does, and a price covers them. -/
structure Matches (prices : Prices) (env : Env) (env' : ToyC.Env) : Prop where
  functions : env.functions = env'.functions
  limit : env.maxIterations = env'.maxIterations
  repetitions : prices.repetitions = env.maxIterations.toNat
  call {name : String} {f : Function} (h : Table.get? name env'.functions = some f)
    (args : List Number) (s : Store) :
    Reads prices.call s (env.call f args) (env'.call f args)

variable {prices : Prices} {env : Env} {env' : ToyC.Env}

mutual

theorem eval_reads (h : Matches prices env env') : ∀ (e : Expr) {s : Store},
    Sees s.scopes i scope →
    Reads (prices.expr e) s (eval env i e).run (ToyC.eval env' scope e).run
  | .literal pos value, s, _ => by
      simp only [eval, ToyC.eval, Prices.expr]
      exact .node fun _ _ => .pure _
  | .name pos ident, s, hsees => by
      simp only [eval, ToyC.eval, Prices.expr]
      refine .node fun later hmore => .looked ?_
      rw [later.scopes.get_eq i ident, (hsees.of_isPrefix hmore).chain]
      cases Scope.get? ident scope with
      | none => exact .pure _
      | some a => exact .pure _
  | .unary pos op e, s, hsees => by
      simp only [eval, ToyC.eval, Prices.expr]
      exact .node fun later hmore =>
        (eval_reads h e (hsees.of_isPrefix hmore)).andOperand fun a _ _ => .pure _
  | .binary pos op left right, s, hsees => by
      have hleft : ∀ {later : Store}, s.scopes.nodes <+: later.scopes.nodes →
          Reads (prices.expr left) later (eval env i left).run (ToyC.eval env' scope left).run :=
        fun hmore => eval_reads h left (hsees.of_isPrefix hmore)
      have hright : ∀ {later : Store}, s.scopes.nodes <+: later.scopes.nodes →
          Reads (prices.expr right) later (eval env i right).run
            (ToyC.eval env' scope right).run :=
        fun hmore => eval_reads h right (hsees.of_isPrefix hmore)
      cases op with
      | or =>
          simp only [eval, ToyC.eval, Prices.expr]
          refine .node fun later hmore => (hleft hmore).andOperand fun a last hlast => ?_
          split
          · exact (Reads.pure _).mono (Nat.zero_le _)
          · exact (hright (hmore.trans hlast)).andOperand fun b _ _ => .pure _
      | and =>
          simp only [eval, ToyC.eval, Prices.expr]
          refine .node fun later hmore => (hleft hmore).andOperand fun a last hlast => ?_
          split
          · exact (hright (hmore.trans hlast)).andOperand fun b _ _ => .pure _
          · exact (Reads.pure _).mono (Nat.zero_le _)
      | compare _ | arith _ =>
          simp only [eval, ToyC.eval, Prices.expr]
          exact .node fun later hmore => (hleft hmore).andOperand fun a last hlast =>
            (hright (hmore.trans hlast)).andOperand fun b _ _ =>
              (Reads.unscoped _).andThen fun c _ _ => .pure _
  | .call pos func args, s, hsees => by
      simp only [eval, ToyC.eval, Prices.expr, h.functions]
      refine .node fun later hmore => ?_
      have hargs := evalArgs_reads h args (hsees.of_isPrefix hmore)
      cases hfound : Table.get? func env'.functions with
      | some f =>
          exact hargs.andThen fun values last _ => (h.call hfound values last).ofCall.andThen
            fun a _ _ => .pure _
      | none =>
          cases Builtin.ofName? func with
          | none => exact (Reads.pure _).mono (Nat.zero_le _)
          | some builtin =>
              dsimp only
              by_cases harity : args.length ≠ builtin.arity
              · rw [if_pos harity, if_pos harity]
                exact (Reads.pure _).mono (Nat.zero_le _)
              · rw [if_neg harity, if_neg harity]
                exact hargs.andThen fun values _ _ => ((Reads.unscoped _).andThen
                  fun a _ _ => .pure _).mono (Nat.zero_le _)
  | .invalid text, s, _ => by
      simp only [eval, ToyC.eval, Prices.expr]
      exact .node fun _ _ => .pure _

theorem evalArgs_reads (h : Matches prices env env') : ∀ (args : List Expr) {s : Store},
    Sees s.scopes i scope →
    Reads (prices.exprs args) s (evalArgs env i args).run (ToyC.evalArgs env' scope args).run
  | [], s, _ => by
      simp only [evalArgs, ToyC.evalArgs, Prices.exprs]
      exact .pure _
  | arg :: rest, s, hsees => by
      simp only [evalArgs, ToyC.evalArgs, Prices.exprs]
      exact (eval_reads h arg hsees).number.ofCall.andThen fun a _ hmore =>
        (evalArgs_reads h rest (hsees.of_isPrefix hmore)).andThen fun more _ _ => .pure _

end

theorem evaluate_reads (h : Matches prices env env') (hsees : Sees s.scopes i scope) (e : Expr) :
    Reads (prices.expr e) s (evaluate env i e) (ToyC.evaluate env' scope e) :=
  (eval_reads h e hsees).number

theorem evalValues_reads (h : Matches prices env env') (hsees : Sees s.scopes i scope)
    (args : List Expr) :
    Reads (prices.exprs args) s (evalValues env i args) (ToyC.evalValues env' scope args) := by
  induction args generalizing s with
  | nil => exact .pure _
  | cons e rest ih =>
      refine ((eval_reads h e hsees).absorb .degradedArgument).unlessAborted (fun _ => rfl)
        (fun _ => rfl) fun value later hmore => ?_
      exact (ih (hsees.of_isPrefix hmore)).unlessAborted (d := 0) (fun _ => rfl) (fun _ => rfl)
        fun more _ _ => .pure _

/-! ### Changing -/

/-- What an execution with a cost leaves of a store: scopes that enclose its own may have changed,
and its own stands for a chain. -/
structure Leaves (c i : Nat) (s after : Store) (scope : Scope) : Prop where
  touches : Touches i s.scopes after.scopes
  sees : Sees after.scopes i scope
  spent : s.fuel ≤ after.fuel + c

/-- From a store with fuel for its cost, an execution in place does what one over a chain does. -/
def Follows (c i : Nat) (s : Store) (p : InPlace Ending) (q : Execution) : Prop :=
  c ≤ s.fuel → Lockstep (fun result left => ∃ after, result = some (left.2, after) ∧
    Leaves c i s after left.1) (p.run s).run q

namespace Follows

theorem mono {p : InPlace Ending} {q : Execution} (h : Follows c i s p q) (hle : c ≤ d) :
    Follows d i s p q := by
  intro hfuel
  refine (h (Nat.le_trans hle hfuel)).imp ?_
  rintro _ ⟨scope, ending⟩ ⟨after, rfl, hleaves⟩
  exact ⟨after, rfl, hleaves.touches, hleaves.sees, by have := hleaves.spent; omega⟩

theorem ended (hsees : Sees s.scopes i scope) (ending : Ending) :
    Follows 0 i s (pure ending) (.done (scope, ending)) :=
  fun _ => .done ⟨s, rfl, Touches.refl i s.scopes, hsees, Nat.le_refl _⟩

/-- What an execution does behind a change is done with the change. -/
theorem behind {p : InPlace Ending} {q : Execution} {later : Store} (h : Follows d i later p q)
    (hi : i < s.scopes.nodes.length) (htouches : Touches i s.scopes later.scopes)
    (hspent : s.fuel ≤ later.fuel + c) (hfuel : c + d ≤ s.fuel) :
    Lockstep (fun result left => ∃ after, result = some (left.2, after) ∧
      Leaves (c + d) i s after left.1) (p.run later).run q := by
  refine (h (by omega)).imp ?_
  rintro _ ⟨scope, ending⟩ ⟨after, rfl, hleaves⟩
  exact ⟨after, rfl, htouches.trans hleaves.touches hi, hleaves.sees,
    by have := hleaves.spent; omega⟩

theorem bind {p : InPlace Ending} {q : Execution} (h : Follows c i s p q)
    (hi : i < s.scopes.nodes.length) {next : Ending → InPlace Ending}
    {next' : Scope × Ending → Execution}
    (hnext : ∀ ending scope later, Sees later.scopes i scope →
      Follows d i later (next ending) (next' (scope, ending))) :
    Follows (c + d) i s (p >>= next) (Routine.bind q next') := by
  intro hfuel
  rw [run_bind]
  refine Lockstep.bind (h (by omega)) ?_
  rintro _ ⟨scope, ending⟩ ⟨later, rfl, hleaves⟩
  exact (hnext ending scope later hleaves.sees).behind hi hleaves.touches hleaves.spent hfuel

theorem read {p : InPlace α} {q : Routine α} (h : Reads c s p q) (hsees : Sees s.scopes i scope)
    {next : α → InPlace Ending} {next' : α → Execution}
    (hnext : ∀ a later, Sees later.scopes i scope → Follows d i later (next a) (next' a)) :
    Follows (c + d) i s (p >>= next) (q.bind next') := by
  intro hfuel
  rw [run_bind]
  refine Lockstep.bind (h (by omega)) ?_
  rintro _ a ⟨later, rfl, hmore, hspent⟩
  exact (hnext a later (hsees.of_isPrefix hmore)).behind hsees.lt (Touches.of_isPrefix hmore i)
    hspent hfuel

/-- What follows a unit that is spent. -/
theorem spent (hsees : Sees s.scopes i scope) {next : Unit → InPlace Ending} {q : Execution}
    (h : ∀ later, Sees later.scopes i scope → Follows c i later (next ()) q) :
    Follows (c + 1) i s (spend >>= next) q := by
  have hread : Follows (1 + c) i s (spend >>= next) ((Routine.done ()).bind fun _ => q) :=
    read Reads.spend hsees fun _ => h
  rwa [Nat.add_comm] at hread

/-- What follows something that costs nothing. -/
theorem lifted (hsees : Sees s.scopes i scope) {p : Routine α} {next : α → InPlace Ending}
    {next' : α → Execution}
    (hnext : ∀ a later, Sees later.scopes i scope → Follows c i later (next a) (next' a)) :
    Follows c i s (lift p >>= next) (p.bind next') := by
  rw [← Nat.zero_add c]
  exact read (Reads.lift p) hsees hnext

theorem looked {next : Store → InPlace Ending} {q : Execution}
    (h : Follows c i s (next s) q) : Follows c i s (get >>= next) q :=
  h

theorem modified {change : ScopeTree → ScopeTree} {next : Unit → InPlace Ending} {q : Execution}
    (hi : i < s.scopes.nodes.length) (htouches : Touches i s.scopes (change s.scopes))
    (h : Follows c i { s with scopes := change s.scopes } (next ()) q) :
    Follows c i s (modifyScopes change >>= next) q := by
  intro hfuel
  have hbehind := h.behind (c := 0) hi htouches (Nat.le_refl _) (by omega)
  rwa [Nat.zero_add] at hbehind

/-- A declaration binds in the scope itself. -/
theorem defined (hsees : Sees s.scopes i scope) {name : String} {value : Number}
    {next : Unit → InPlace Ending} {q : Execution}
    (h : ∀ later, Sees later.scopes i (scope.define name value) → Follows c i later (next ()) q) :
    Follows c i s (define i name value >>= next) q := by
  have htouches : Touches i s.scopes (s.scopes.define i name value) :=
    Touches.define .self name value
  refine modified hsees.lt htouches (h _ ⟨?_, ?_⟩)
  · exact Nat.lt_of_lt_of_le hsees.lt htouches.length_le
  · rw [chain_define (List.getElem?_eq_getElem hsees.lt), hsees.chain]

theorem withNumber {p : InPlace (Except Abort Number)} {q : Routine (Except Abort Number)}
    (h : Reads c s p q) (hsees : Sees s.scopes i scope) {next : Number → InPlace Ending}
    {next' : Number → Execution}
    (hnext : ∀ a later, Sees later.scopes i scope → Follows d i later (next a) (next' a)) :
    Follows (c + d) i s (withNumber p next) (Execution.withNumber scope q next') := by
  refine read h hsees ?_
  rintro (cause | a) later hlater
  · exact (ended hlater _).mono (Nat.zero_le _)
  · exact hnext a later hlater

theorem afterYield (hsees : Sees s.scopes i scope) {next : Unit → InPlace Ending}
    {next' : Unit → Execution}
    (hnext : ∀ later, Sees later.scopes i scope → Follows c i later (next ()) (next' ())) :
    Follows c i s (afterYield next) (Execution.afterYield scope next') := by
  refine lifted hsees fun cancelled later hlater => ?_
  cases cancelled
  · exact hnext later hlater
  · exact (ended hlater _).mono (Nat.zero_le _)

/-- A block stands in a new scope, and what it leaves around that is what it leaves. -/
theorem inChild (hsees : Sees s.scopes i scope) {body : Nat → InPlace Ending}
    {body' : Scope → Execution}
    (hbody : ∀ j inner later, Sees later.scopes j inner →
      Follows c j later (body j) (body' inner)) :
    Follows c i s (inChild i body) (Execution.inChild scope body') := by
  intro hfuel
  let t : Store := { s with scopes := (s.scopes.child i).1 }
  have hinner : Sees t.scopes s.scopes.nodes.length scope.child :=
    ⟨by simp [t, child], by rw [chain_child hsees.lt, hsees.chain]⟩
  have hdone := hbody s.scopes.nodes.length scope.child t hinner hfuel
  refine Lockstep.map_right (hdone.imp ?_)
  rintro _ ⟨inner, ending⟩ ⟨after, rfl, hleaves⟩
  have hmine := hleaves.touches.of_child hsees.lt
  refine ⟨after, rfl, hmine, ⟨?_, ?_⟩, hleaves.spent⟩
  · exact Nat.lt_of_lt_of_le hsees.lt hmine.length_le
  · rw [hleaves.touches.chain_parent hsees.lt, hleaves.sees.chain]

/-- What is done in a new scope with nothing around it changes none of those that were there. -/
theorem inFresh {body : Nat → InPlace Ending} {q : Execution}
    (hbody : ∀ j later, Sees later.scopes j [[]] → Follows c j later (body j) q) :
    Reads c s (inFresh body) (Routine.bind q fun (_, ending) => .done ending) := by
  intro hfuel
  let t : Store := { s with scopes := s.scopes.fresh.1 }
  have hnew : Sees t.scopes s.scopes.nodes.length [[]] :=
    ⟨by simp [t, fresh], s.scopes.chain_fresh⟩
  have hdone := hbody s.scopes.nodes.length t hnew hfuel
  refine Lockstep.map_right (hdone.imp ?_)
  rintro _ ⟨left, ending⟩ ⟨after, rfl, hleaves⟩
  exact ⟨after, rfl, hleaves.touches.isPrefix_of_fresh, hleaves.spent⟩

end Follows

/-- A variable that is not declared is not stored. -/
theorem store_undeclared (hsees : Sees s.scopes i scope) {target : String}
    (hfound : Scope.get? target scope = none) (result : Number → Routine (Except Abort Number)) :
    Follows 0 i s (store i target result)
      ((Routine.record (.undeclared target)).bind fun _ => .done (scope, .completed)) := by
  refine .looked ?_
  simp only [s.scopes.get_eq i target, hsees.chain, hfound]
  exact .lifted hsees fun _ _ hlater => .ended hlater _

theorem store_declared (hsees : Sees s.scopes i scope) {target : String} {current : Number}
    (hfound : Scope.get? target scope = some current)
    (result : Number → Routine (Except Abort Number)) :
    Follows 0 i s (store i target result)
      (Execution.withNumber scope (result current) fun a =>
        .done (scope.set target a, .completed)) := by
  refine .looked ?_
  simp only [s.scopes.get_eq i target, hsees.chain, hfound]
  refine .withNumber (c := 0) (d := 0) (.lift _) hsees fun a later hlater => ?_
  have htouches := Touches.set later.scopes i target a
  refine .modified hlater.lt htouches (.ended ⟨?_, ?_⟩ _)
  · exact Nat.lt_of_lt_of_le hlater.lt htouches.length_le
  · rw [chain_set, hlater.chain]

theorem assign_follows (h : Matches prices env env') (hsees : Sees s.scopes i scope)
    (target : String) (change : Change) :
    Follows (prices.expr? change.value?) i s (assign env i target change)
      (ToyC.assign env' scope target change) := by
  cases hfound : Scope.get? target scope with
  | none =>
      cases change <;> simp only [assign, ToyC.assign, hfound]
      case set e =>
          exact .withNumber (d := 0) (evaluate_reads h hsees e) hsees fun _ _ hlater =>
            store_undeclared hlater hfound _
      case update op e =>
          exact .withNumber (d := 0) (evaluate_reads h hsees e) hsees fun _ _ hlater =>
            store_undeclared hlater hfound _
      case increment => exact store_undeclared hsees hfound _
      case decrement => exact store_undeclared hsees hfound _
  | some current =>
      cases change <;> simp only [assign, ToyC.assign, hfound]
      case set e =>
          exact .withNumber (d := 0) (evaluate_reads h hsees e) hsees fun a _ hlater =>
            store_declared hlater hfound fun _ => .done (.ok a)
      case update op e =>
          exact .withNumber (d := 0) (evaluate_reads h hsees e) hsees fun a _ hlater =>
            store_declared hlater hfound fun current => updated op current a
      case increment =>
          exact store_declared hsees hfound fun current => .done (.ok current.increment)
      case decrement =>
          exact store_declared hsees hfound fun current => .done (.ok current.decrement)

theorem declare_follows (h : Matches prices env env') (hsees : Sees s.scopes i scope)
    (ds : List Declarator) :
    Follows (prices.declarators ds) i s (declare env i ds) (ToyC.declare env' scope ds) := by
  induction ds generalizing s scope with
  | nil => exact .ended hsees _
  | cons d rest ih =>
      obtain ⟨name, _ | e⟩ := d
      · simp only [declare, ToyC.declare, Prices.declarators, Prices.expr?, Nat.zero_add]
        exact .defined hsees fun _ hlater => ih hlater
      · simp only [declare, ToyC.declare, Prices.declarators, Prices.expr?]
        exact .withNumber (evaluate_reads h hsees e) hsees fun a _ hlater =>
          .defined hlater fun _ hlast => ih hlast

theorem execDeed_follows (h : Matches prices env env') (hsees : Sees s.scopes i scope)
    (deed : Deed) :
    Follows (prices.deed deed) i s (execDeed env i deed) (ToyC.execDeed env' scope deed) := by
  cases deed with
  | returns value =>
      cases value with
      | none => exact .ended hsees _
      | some e =>
          exact .withNumber (d := 0) (evaluate_reads h hsees e) hsees fun a _ hlater =>
            .ended hlater _
  | prints fmt args =>
      refine .read (d := 0) (evalValues_reads h hsees args) hsees ?_
      rintro (cause | values) later hlater
      · exact .ended hlater _
      · dsimp only
        cases Printf.format fmt values with
        | error cause => exact .ended hlater _
        | ok text => exact .lifted hlater fun _ _ hlast => .ended hlast _
  | declares type ds => exact declare_follows h hsees ds
  | assigns target change => exact assign_follows h hsees target change
  | evaluates e =>
      exact .withNumber (d := 0) (evaluate_reads h hsees e) hsees fun _ _ hlater =>
        .ended hlater _
  | breaks => exact .ended hsees _
  | continues => exact .ended hsees _

theorem execClause_follows (h : Matches prices env env') (hsees : Sees s.scopes i scope)
    (clause : Option Simple) :
    Follows (prices.clause clause) i s (execClause env i clause)
      (ToyC.execClause env' scope clause) := by
  cases clause with
  | none => exact .ended hsees _
  | some simple => exact .spent hsees fun _ hlater => execDeed_follows h hlater simple.deed

theorem reportRunaway_follows (h : Matches prices env env') (hsees : Sees s.scopes i scope)
    (src : String) :
    Follows 0 i s (reportRunaway env src) (ToyC.reportRunaway env' src scope) := by
  unfold reportRunaway ToyC.reportRunaway
  rw [h.limit]
  refine .lifted hsees fun _ later hlater => ?_
  cases runawayMessage env'.maxIterations with
  | ok text => exact .lifted hlater fun _ _ hlast => .ended hlast _
  | error cause => exact .ended hlater _

section Loops

variable {condition : InPlace (Except Abort Number)}
  {condition' : Scope → Routine (Except Abort Number)} {body : Nat → InPlace Ending}
  {step : InPlace Ending} {body' step' : Scope → Execution} {ofCondition ofBody ofStep : Nat}

/-- Loops whose parts belong together, wherever they are among the scopes. The iterations that have
been counted and those that are left are as many as the limit allows. -/
theorem repeatLoop_follows (h : Matches prices env env') (src : String)
    (hcondition : ∀ {s scope}, Sees s.scopes i scope →
      Reads ofCondition s condition (condition' scope))
    (hbody : ∀ j inner later, Sees later.scopes j inner →
      Follows ofBody j later (body j) (body' inner))
    (hstep : ∀ {s scope}, Sees s.scopes i scope → Follows ofStep i s step (step' scope))
    (hsees : Sees s.scopes i scope) {left units iterations : Nat}
    (hleft : iterations + left = env.maxIterations.toNat) (hunits : left < units) :
    Follows (Prices.loop ofCondition ofBody ofStep left) i s
      (repeatLoop env src condition body step i units iterations)
      (ToyC.repeatLoop env' src condition' body' step' left scope) := by
  obtain ⟨more, rfl⟩ : ∃ more, units = more + 1 := ⟨units - 1, by omega⟩
  induction left generalizing s scope more iterations with
  | zero =>
      have hlimit : env.maxIterations ≤ iterations := by omega
      have hcost : ofCondition + 0 + 1 ≤ Prices.loop ofCondition ofBody ofStep 0 := by
        simp only [Prices.loop]
        omega
      unfold repeatLoop ToyC.repeatLoop
      refine Follows.mono (.spent hsees fun later hlater =>
        .withNumber (d := 0) (hcondition hlater) hlater fun c last hlast => ?_) hcost
      split
      · exact .ended hlast _
      · exact reportRunaway_follows h hlast src
  | succ left ih =>
      have hlimit : ¬ env.maxIterations ≤ iterations := by omega
      obtain ⟨again, rfl⟩ : ∃ again, more = again + 1 := ⟨more - 1, by omega⟩
      have hcost :
          ofCondition + (ofBody + (ofStep + Prices.loop ofCondition ofBody ofStep left)) + 1 ≤
            Prices.loop ofCondition ofBody ofStep (left + 1) := by
        simp only [Prices.loop, Nat.add_mul, Nat.one_mul]
        omega
      unfold repeatLoop ToyC.repeatLoop
      refine Follows.mono (.spent hsees fun later hlater =>
        .withNumber (hcondition hlater) hlater fun c last hlast => ?_) hcost
      split
      · exact (Follows.ended hlast _).mono (Nat.zero_le _)
      · refine (Follows.inChild hlast hbody).bind hlast.lt fun ending scope behind hbehind => ?_
        cases ending with
        | completed | continued =>
            refine (hstep hbehind).bind hbehind.lt fun ending scope next hnext => ?_
            cases ending with
            | completed =>
                exact .afterYield hnext fun _ hnow => ih hnow (by omega) again (by omega)
            | _ => exact (Follows.ended hnext _).mono (Nat.zero_le _)
        | _ => exact (Follows.ended hbehind _).mono (Nat.zero_le _)

/-- A loop starts with units for all of its iterations, because its cost covers them. -/
theorem startLoop_follows (h : Matches prices env env') (src : String)
    (hcondition : ∀ {s scope}, Sees s.scopes i scope →
      Reads ofCondition s condition (condition' scope))
    (hbody : ∀ j inner later, Sees later.scopes j inner →
      Follows ofBody j later (body j) (body' inner))
    (hstep : ∀ {s scope}, Sees s.scopes i scope → Follows ofStep i s step (step' scope))
    (hsees : Sees s.scopes i scope) :
    Follows (Prices.loop ofCondition ofBody ofStep prices.repetitions) i s
      (startLoop env src condition body step i)
      (ToyC.repeatLoop env' src condition' body' step' env'.maxIterations.toNat scope) := by
  intro hfuel
  have hunits : prices.repetitions < s.fuel := by
    refine Nat.lt_of_lt_of_le ?_ hfuel
    simp only [Prices.loop, Nat.mul_add, Nat.mul_one]
    omega
  rw [← h.limit, ← h.repetitions] at *
  exact repeatLoop_follows h src hcondition hbody hstep hsees (by rw [Nat.zero_add, h.repetitions])
    hunits hfuel

end Loops

mutual

theorem exec_follows (h : Matches prices env env') : ∀ (stmt : Stmt) {s : Store} {i : Nat}
    {scope : Scope}, Sees s.scopes i scope →
    Follows (prices.stmt stmt) i s (exec env i stmt) (ToyC.exec env' scope stmt)
  | .simple simple, _, _, _, hsees => by
      simp only [exec, ToyC.exec, Prices.stmt]
      exact .spent hsees fun _ hlater => execDeed_follows h hlater simple.deed
  | .branch src condition yes no, _, i, scope, hsees => by
      simp only [exec, ToyC.exec, Prices.stmt]
      refine .spent hsees fun later hlater =>
        .withNumber (evaluate_reads h hlater condition) hlater fun c last hlast => ?_
      split
      · exact (Follows.inChild hlast fun j inner inside hinside =>
          execBlock_follows h yes hinside).mono (Nat.le_add_right _ _)
      · exact (execOther_follows h no hlast).mono (Nat.le_add_left _ _)
  | .whileLoop src condition body, _, _, _, hsees => by
      simp only [exec, ToyC.exec, Prices.stmt]
      exact .spent hsees fun later hlater =>
        startLoop_follows h src (fun hnow => evaluate_reads h hnow condition)
          (fun j inner now hnow => execBlock_follows h body hnow) (fun hnow => .ended hnow _) hlater
  | .forLoop src start condition next body, _, _, _, hsees => by
      simp only [exec, ToyC.exec, Prices.stmt]
      refine .spent hsees fun later hlater => .inChild hlater fun j inner inside hinside => ?_
      refine (execClause_follows h hinside start).bind hinside.lt fun ending scope last hlast => ?_
      cases ending with
      | completed =>
          refine startLoop_follows h src (fun hnow => ?_)
            (fun j inner now hnow => execBlock_follows h body hnow)
            (fun hnow => execClause_follows h hnow next) hlast
          cases condition with
          | none => exact .pure _
          | some e => exact evaluate_reads h hnow e
      | _ => exact (Follows.ended hlast _).mono (Nat.zero_le _)
  | .block src body, _, _, _, hsees => by
      simp only [exec, ToyC.exec, Prices.stmt]
      exact .spent hsees fun later hlater =>
        .inChild hlater fun j inner inside hinside => execBlock_follows h body hinside

theorem execBlock_follows (h : Matches prices env env') : ∀ (body : List Stmt) {s : Store}
    {i : Nat} {scope : Scope}, Sees s.scopes i scope →
    Follows (prices.block body) i s (execBlock env i body) (ToyC.execBlock env' scope body)
  | [], _, _, _, hsees => by
      simp only [execBlock, ToyC.execBlock, Prices.block]
      exact .ended hsees _
  | stmt :: rest, _, _, _, hsees => by
      simp only [execBlock, ToyC.execBlock, Prices.block]
      refine (exec_follows h stmt hsees).bind hsees.lt fun ending scope later hlater => ?_
      cases ending with
      | completed => exact .afterYield hlater fun last hlast => execBlock_follows h rest hlast
      | _ => exact (Follows.ended hlater _).mono (Nat.zero_le _)

theorem execOther_follows (h : Matches prices env env') : ∀ (body : Option (List Stmt))
    {s : Store} {i : Nat} {scope : Scope}, Sees s.scopes i scope →
    Follows (prices.other body) i s (execOther env i body) (ToyC.execOther env' scope body)
  | none, _, _, _, hsees => by
      simp only [execOther, ToyC.execOther, Prices.other]
      exact .ended hsees _
  | some body, _, _, _, hsees => by
      simp only [execOther, ToyC.execOther, Prices.other]
      exact .inChild hsees fun j inner inside hinside => execBlock_follows h body hinside

end

/-! ### Calls -/

/-- What follows the binding of parameters in a scope with nothing else around. -/
theorem bindParams_follows {params : List Param} {args : List Number} {bound : Bindings}
    (hsees : Sees s.scopes i [bound]) {next : Unit → InPlace Ending} {q : Execution}
    (h : ∀ later, Sees later.scopes i [ToyC.bindParams params args bound] →
      Follows c i later (next ()) q) :
    Follows c i s (bindParams i params args >>= next) q := by
  induction params generalizing s args bound with
  | nil => exact h s hsees
  | cons param rest ih =>
      simp only [bindParams, LawfulMonad.bind_assoc]
      exact .defined hsees fun later hlater => ih hlater h

/-- A body is executed between entering its function and leaving it. It changes the scope that is
made for it and scopes that are made later. -/
theorem body_reads (h : Matches prices env env') (f : Function) (args : List Number) (s : Store) :
    Reads (prices.block f.body) s
      (do
        lift (Routine.perform (.enter f.name))
        let ending ← inFresh fun i => do
          bindParams i f.signature.params args
          execBlock env i f.body
        lift (Routine.perform .leave)
        lift (ending.result f.name))
      ((Routine.perform (.enter f.name)).bind fun _ =>
        (ToyC.execBlock env' [ToyC.bindParams f.signature.params args []] f.body).bind
          fun (_, ending) => (Routine.perform .leave).bind fun _ => ending.result f.name) := by
  have hbody : ∀ s : Store, Reads (prices.block f.body) s
      (inFresh fun i => do
        bindParams i f.signature.params args
        execBlock env i f.body)
      (Routine.bind (ToyC.execBlock env' [ToyC.bindParams f.signature.params args []] f.body)
        fun (_, ending) => .done ending) :=
    fun s => Follows.inFresh fun _ _ hnew => bindParams_follows hnew fun _ hbound =>
      execBlock_follows h f.body hbound
  rw [← Nat.zero_add (prices.block f.body)]
  refine (Reads.lift (Routine.perform (.enter f.name))).bind fun _ later _ => ?_
  have hleave := (hbody later).bind (d := 0) fun ending _ _ =>
    (Reads.lift (Routine.perform .leave)).bind fun _ _ _ => Reads.lift (ending.result f.name)
  rwa [Routine.bind_assoc] at hleave

/-- A call covers its price. The calls around it and those that may still nest are as many as the
limit allows. -/
theorem activate_reads (functions : Table Function) (options : Options) {left units depth : Nat}
    (hleft : depth + left = options.maxDepth.toNat) (hunits : left < units) {name : String}
    {f : Function} (hf : Table.get? name functions = some f) (args : List Number) (s : Store) :
    Reads (Prices.within functions options.maxIterations.toNat left).call s
      (activate functions options units depth f args)
      (ToyC.activate functions options left f args) := by
  obtain ⟨more, rfl⟩ : ∃ more, units = more + 1 := ⟨units - 1, by omega⟩
  induction left generalizing more depth name f args s with
  | zero =>
      have hlimit : options.maxDepth ≤ depth := by omega
      have hrefused : ToyC.activate functions options 0 f args =
          .done (.error (.tooDeep f.name depth)) := by
        rw [ToyC.activate, ← hleft, Nat.add_zero]
      simp only [activate, if_pos hlimit, hrefused]
      exact .spent fun _ _ => .pure _
  | succ left ih =>
      have hlimit : ¬ options.maxDepth ≤ depth := by omega
      obtain ⟨again, rfl⟩ : ∃ again, more = again + 1 := ⟨more - 1, by omega⟩
      have hmatches : Matches (Prices.within functions options.maxIterations.toNat left)
          (envAt functions options (again + 1) (depth + 1))
          (ToyC.envWithin functions options left) :=
        ⟨rfl, rfl, by cases left <;> rfl, fun hg values s =>
          ih (by omega) hg values s again (by omega)⟩
      simp only [activate, if_neg hlimit, activate_succ]
      exact (Reads.spent fun later _ => body_reads hmatches f args later).mono
        (Prices.block_lt_within_call hf _ left)

/-- What the body of a function needs to know in the one interpretation and in the other. -/
theorem envAt_matches (functions : Table Function) (options : Options) {left units depth : Nat}
    (hleft : depth + left = options.maxDepth.toNat) (hunits : left < units) :
    Matches (Prices.within functions options.maxIterations.toNat left)
      (envAt functions options units depth) (ToyC.envWithin functions options left) where
  functions := rfl
  limit := rfl
  repetitions := by cases left <;> rfl
  call hf args s := activate_reads functions options hleft hunits hf args s

end ToyC.InPlace
