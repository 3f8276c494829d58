import ToyC.Proofs.Run.Recorded
import ToyC.Proofs.Run.Simulation
import ToyC.Run.Call

/-!
What a statement with a block of its own leaves of the scopes around it. However it ends,
they keep their names in their order, because a declaration binds in the scope of a block
inside. A binding has the number that it was given last, so it keeps its number where the
statement assigns no variable of that name, and an assignment lasts when the block is left.
-/

namespace ToyC

open Routine

/-! ### Targets -/

/-- The variables that a deed assigns. -/
def Deed.targets : Deed → List String
  | .assigns target _ => [target]
  | _ => []

namespace Stmt

/-- The variables that a clause of a loop header assigns. -/
def clauseTargets (clause : Option Simple) : List String :=
  clause.elim [] (·.deed.targets)

mutual

/-- The variables that are assigned somewhere in a statement. -/
def targets : Stmt → List String
  | .simple s => s.deed.targets
  | .branch _ _ yes no => targetsAmong yes ++ targetsOther no
  | .whileLoop _ _ body | .block _ body => targetsAmong body
  | .forLoop _ start _ next body => clauseTargets start ++ clauseTargets next ++ targetsAmong body

def targetsAmong : List Stmt → List String
  | [] => []
  | stmt :: rest => stmt.targets ++ targetsAmong rest

def targetsOther : Option (List Stmt) → List String
  | none => []
  | some body => targetsAmong body

end

end Stmt

/-! ### What is left of the scopes around -/

namespace Scope

/-- Behind the scopes that may be declared in, `n` of them, a chain is what recorded assignments
make of it: it keeps its names, and only variables among `targets` are assigned. -/
structure Holds (targets : List String) (n : Nat) (before after : Scope) (log : List Assigned) :
    Prop where
  keys : (after.drop n).map Table.keys = (before.drop n).map Table.keys
  replay : after.drop n = Scope.replay log (before.drop n)
  names : ∀ a ∈ log, a.name ∈ targets

namespace Holds

variable {targets : List String} {n : Nat} {before middle after : Scope} {log more : List Assigned}

theorem of_drop (h : after.drop n = before.drop n) : Holds targets n before after [] :=
  ⟨by rw [h], h, nofun⟩

theorem trans (h : Holds targets n before middle log) (h' : Holds targets n middle after more) :
    Holds targets n before after (log ++ more) where
  keys := h'.keys.trans h.keys
  replay := by rw [h'.replay, h.replay, replay_append]
  names a ha := (List.mem_append.mp ha).elim (h.names a) (h'.names a)

/-- A scope more may be declared in. -/
theorem mono (h : Holds targets n before after log) : Holds targets (n + 1) before after log := by
  have hdrop : ∀ s : Scope, s.drop (n + 1) = (s.drop n).drop 1 := fun s => List.drop_drop.symm
  constructor
  · have hkeys := congrArg (List.drop 1) h.keys
    rwa [← List.map_drop, ← List.map_drop, ← hdrop, ← hdrop] at hkeys
  · rw [hdrop, hdrop, h.replay, drop_replay]
  · exact h.names

/-- The scope of a block ends with it. -/
theorem inChild (h : Holds targets (n + 1) before.child after log) :
    Holds targets n before after.parent log := by
  have hparent : after.parent.drop n = after.drop (n + 1) := by
    cases after <;> simp [parent]
  constructor
  · rw [hparent]
    exact h.keys
  · rw [hparent]
    exact h.replay
  · exact h.names

/-- An assignment reaches the nearest binding, and leaves the others as they are. -/
theorem set {target : String} (htarget : target ∈ targets)
    (hbound : (get? target before).isSome = true) (value : Number) :
    Holds targets n before (Scope.set target value before)
      ((binder? target before).toList.map (⟨·, target, value⟩)) := by
  rw [← isSome_binder?] at hbound
  obtain ⟨depth, hdepth⟩ := Option.isSome_iff_exists.mp hbound
  have hat : (at? depth target before).isSome = true := by
    rwa [at?_binder? hdepth, ← isSome_binder?]
  rw [set_eq_put hdepth, hdepth]
  constructor
  · rw [List.map_drop, List.map_drop]
    exact congrArg (List.drop n) (keys_put hat)
  · exact drop_put _ n before
  · simpa using htarget

end Holds

end Scope

open Scope

/-! ### What is left by an execution -/

namespace Recorded

/-- Whatever its checks are answered, a recorded execution leaves what its assignments make of the
scopes around. -/
def Keeps (targets : List String) (n : Nat) (before : Scope) (p : Recorded) : Prop :=
  ∀ after ending log, p.Gives ((after, ending), log) → Holds targets n before after log

variable {env : Env} {targets : List String} {n : Nat} {scope : Scope}

namespace Keeps

theorem quiet {p : Execution}
    (h : ∀ after ending, p.Gives (after, ending) → after.drop n = scope.drop n) :
    Keeps targets n scope (Recorded.quiet p) := by
  intro after ending log hgives
  obtain ⟨⟨last, lastEnding⟩, hp, hdone⟩ := Gives.of_bind hgives
  cases hdone
  exact .of_drop (h _ _ hp)

theorem unchanged (ending : Ending) : Keeps targets n scope (.done ((scope, ending), [])) := by
  rintro _ _ _ ⟨⟩
  exact .of_drop rfl

theorem behind {α : Type} (p : Routine α) {next : α → Recorded}
    (h : ∀ a, Keeps targets n scope (next a)) : Keeps targets n scope (p.bind next) := by
  intro after ending log hgives
  obtain ⟨a, -, hnext⟩ := Gives.of_bind hgives
  exact h a _ _ _ hnext

theorem quiet_behind {α : Type} (p : Routine α) {next : α → Execution}
    (h : ∀ a, Keeps targets n scope (Recorded.quiet (next a))) :
    Keeps targets n scope (Recorded.quiet (p.bind next)) := by
  rw [Recorded.quiet, Routine.bind_assoc]
  exact behind p h

theorem quiet_withNumber (p : Routine (Except Abort Number)) {next : Number → Execution}
    (hnext : ∀ a, Keeps targets n scope (Recorded.quiet (next a))) :
    Keeps targets n scope (Recorded.quiet (Execution.withNumber scope p next)) := by
  refine quiet_behind p fun result => ?_
  cases result with
  | ok a => exact hnext a
  | error cause => exact unchanged _

theorem andThen {p : Recorded} (hp : Keeps targets n scope p) {next : Scope × Ending → Recorded}
    (hnext : ∀ after ending, Keeps targets n after (next (after, ending))) :
    Keeps targets n scope (p.andThen next) := by
  intro after ending log hgives
  obtain ⟨⟨⟨middle, first⟩, log⟩, hfirst, hrest⟩ := Gives.of_bind hgives
  obtain ⟨⟨⟨last, second⟩, more⟩, hsecond, hdone⟩ := Gives.of_bind hrest
  cases hdone
  exact (hp _ _ _ hfirst).trans (hnext _ _ _ _ _ hsecond)

theorem withNumber (p : Routine (Except Abort Number)) {next : Number → Recorded}
    (hnext : ∀ a, Keeps targets n scope (next a)) :
    Keeps targets n scope (Recorded.withNumber scope p next) := by
  refine behind p fun result => ?_
  cases result with
  | ok a => exact hnext a
  | error cause => exact unchanged _

theorem afterYield {next : Unit → Recorded} (hnext : Keeps targets n scope (next ())) :
    Keeps targets n scope (Recorded.afterYield scope next) := by
  refine behind yieldPoint fun cancelled => ?_
  cases cancelled with
  | true => exact unchanged _
  | false => exact hnext

theorem inChild {body : Scope → Recorded}
    (hbody : Keeps targets (n + 1) scope.child (body scope.child)) :
    Keeps targets n scope (Recorded.inChild scope body) := by
  intro after ending log hgives
  obtain ⟨⟨⟨inner, _⟩, _⟩, hinner, hdone⟩ := Gives.of_bind hgives
  cases hdone
  exact (hbody _ _ _ hinner).inChild

theorem mono {p : Recorded} (h : Keeps targets n scope p) : Keeps targets (n + 1) scope p :=
  fun _ _ _ hgives => (h _ _ _ hgives).mono

end Keeps

theorem assign_keeps {target : String} (htarget : target ∈ targets) (change : Change) :
    Keeps targets n scope (assign env scope target change) := by
  have hundeclared : Keeps targets n scope
      ((Routine.record (.undeclared target)).bind fun _ => .done ((scope, .completed), [])) :=
    .behind _ fun _ => .unchanged _
  have hstored : ∀ {current : Number}, get? target scope = some current →
      ∀ p : Routine (Except Abort Number), Keeps targets n scope (withNumber scope p fun a =>
        .done ((scope.set target a, .completed),
          (binder? target scope).toList.map (⟨·, target, a⟩))) := by
    intro current hfound p
    refine .withNumber p fun a => ?_
    rintro _ _ _ ⟨⟩
    exact .set htarget (Option.isSome_of_eq_some hfound) a
  cases hfound : get? target scope <;> cases change <;> simp only [assign, hfound]
  case none.set e => exact .withNumber _ fun _ => hundeclared
  case none.update op e => exact .withNumber _ fun _ => hundeclared
  case none.increment => exact hundeclared
  case none.decrement => exact hundeclared
  case some.set e => exact .withNumber _ fun _ => hstored hfound _
  case some.update op e => exact .withNumber _ fun _ => hstored hfound _
  case some.increment => exact hstored hfound _
  case some.decrement => exact hstored hfound _

theorem drop_define (name : String) (value : Number) (scope : Scope) :
    (define name value scope).drop 1 = scope.drop 1 := by
  cases scope <;> rfl

/-- A declaration binds in the innermost scope. -/
theorem declare_drop {ds : List Declarator} {after : Scope} {ending : Ending}
    (h : (declare env scope ds).Gives (after, ending)) : after.drop 1 = scope.drop 1 := by
  induction ds generalizing scope with
  | nil => cases h; rfl
  | cons d rest ih =>
      unfold declare at h
      split at h
      · exact (ih h).trans (drop_define d.name 0 scope)
      · obtain ⟨result, -, h⟩ := Gives.of_bind h
        cases result with
        | ok a => exact (ih h).trans (drop_define d.name a scope)
        | error cause => cases h; rfl

theorem execDeed_keeps {deed : Deed} (h : deed.targets ⊆ targets) :
    Keeps targets 1 scope (execDeed env scope deed) := by
  cases deed with
  | assigns target change => exact assign_keeps (h List.mem_cons_self) change
  | declares type ds => exact .quiet fun _ _ => declare_drop
  | returns value =>
      cases value with
      | none => exact .unchanged _
      | some e => exact .quiet_withNumber _ fun a => .unchanged _
  | prints fmt args =>
      refine .quiet_behind _ fun result => ?_
      cases result with
      | error cause => exact .unchanged _
      | ok values =>
          dsimp only
          split
          · exact .unchanged _
          · exact .quiet_behind _ fun _ => .unchanged _
  | evaluates e => exact .quiet_withNumber _ fun a => .unchanged _
  | breaks => exact .unchanged _
  | continues => exact .unchanged _

theorem execClause_keeps {clause : Option Simple} (h : Stmt.clauseTargets clause ⊆ targets) :
    Keeps targets 1 scope (execClause env scope clause) := by
  cases clause with
  | none => exact .unchanged _
  | some clause => exact execDeed_keeps h

theorem reportRunaway_keeps (src : String) :
    Keeps targets n scope (quiet (reportRunaway env src scope)) := by
  refine .quiet_behind _ fun _ => ?_
  split
  · exact .quiet_behind _ fun _ => .unchanged _
  · exact .unchanged _

theorem repeatLoop_keeps {src : String} {condition : Scope → Routine (Except Abort Number)}
    {body step : Scope → Recorded} (hbody : ∀ s, Keeps targets (n + 1) s (body s))
    (hstep : ∀ s, Keeps targets n s (step s)) (left : Nat) (scope : Scope) :
    Keeps targets n scope (repeatLoop env src condition body step left scope) := by
  induction left generalizing scope with
  | zero =>
      unfold repeatLoop
      refine .withNumber _ fun c => ?_
      split
      · exact .unchanged _
      · exact reportRunaway_keeps src
  | succ left ih =>
      unfold repeatLoop
      refine .withNumber _ fun c => ?_
      split
      · exact .unchanged _
      · refine .andThen (.inChild (hbody scope.child)) fun after ending => ?_
        cases ending with
        | completed | continued =>
            refine .andThen (hstep after) fun last ending => ?_
            cases ending with
            | completed => exact .afterYield (ih last)
            | _ => exact .unchanged _
        | _ => exact .unchanged _

end Recorded

/-- How many scopes a statement may declare in: its own, or none where it has a block. -/
def Stmt.reach : Stmt → Nat
  | .simple _ => 1
  | _ => 0

namespace Recorded

variable {env : Env} {targets : List String}

mutual

/-- A statement assigns only its targets, and declares no further out than it reaches. -/
theorem exec_keeps : ∀ (stmt : Stmt) (scope : Scope), stmt.targets ⊆ targets →
    Keeps targets stmt.reach scope (exec env scope stmt)
  | .simple clause, scope, h => by
      simp only [exec]
      exact execDeed_keeps h
  | .branch src condition yes no, scope, h => by
      obtain ⟨hyes, hno⟩ := List.append_subset.mp h
      simp only [exec]
      refine .withNumber _ fun c => ?_
      split
      · exact .inChild (execBlock_keeps yes scope.child hyes)
      · exact execOther_keeps no scope hno
  | .whileLoop src condition body, scope, h => by
      simp only [exec]
      exact repeatLoop_keeps (fun s => execBlock_keeps body s h) (fun _ => .unchanged _) _ scope
  | .forLoop src start condition next body, scope, h => by
      obtain ⟨hheader, hbody⟩ := List.append_subset.mp h
      obtain ⟨hstart, hnext⟩ := List.append_subset.mp hheader
      simp only [exec]
      refine .inChild (.andThen (execClause_keeps hstart) fun inner ending => ?_)
      cases ending with
      | completed =>
          -- the clauses may declare in the scope of the loop, and the body in one more
          exact repeatLoop_keeps (fun s => (execBlock_keeps body s hbody).mono)
            (fun s => execClause_keeps hnext) _ inner
      | _ => exact .unchanged _
  | .block src body, scope, h => by
      simp only [exec]
      exact .inChild (execBlock_keeps body scope.child h)

/-- The statements of a block may declare in its scope. -/
theorem execBlock_keeps : ∀ (body : List Stmt) (scope : Scope), Stmt.targetsAmong body ⊆ targets →
    Keeps targets 1 scope (execBlock env scope body)
  | [], scope, h => by
      simp only [execBlock]
      exact .unchanged _
  | stmt :: rest, scope, h => by
      obtain ⟨hstmt, hrest⟩ := List.append_subset.mp h
      have hfirst : Keeps targets 1 scope (exec env scope stmt) := by
        have hreach : Keeps targets stmt.reach scope (exec env scope stmt) :=
          exec_keeps stmt scope hstmt
        cases stmt with
        | simple clause => exact hreach
        | _ => exact hreach.mono
      simp only [execBlock]
      refine .andThen hfirst fun after ending => ?_
      cases ending with
      | completed => exact .afterYield (execBlock_keeps rest after hrest)
      | _ => exact .unchanged _

theorem execOther_keeps : ∀ (body : Option (List Stmt)) (scope : Scope),
    Stmt.targetsOther body ⊆ targets → Keeps targets 0 scope (execOther env scope body)
  | none, scope, h => by
      simp only [execOther]
      exact .unchanged _
  | some body, scope, h => by
      simp only [execOther]
      exact .inChild (execBlock_keeps body scope.child h)

end

end Recorded

/-- However it is cancelled and however it ends, a statement with a block of its own leaves the
scopes around it with their names in their order. A binding has the number that it was given last,
and keeps its number where it was given none; only targets of assignments in the statement are given
any. -/
theorem exec_blockScoped (env : Env) (scope : Scope) (stmt : Stmt) (hblock : ∀ s, stmt ≠ .simple s)
    (cancels : List Sight → Bool) (seen : List Sight) :
    let ended := (exec env scope stmt).live cancels seen
    let recorded := (Recorded.exec env scope stmt).live cancels seen
    let after := ended.2.1
    let log := recorded.2.2
    (recorded.1 = ended.1 ∧ recorded.2.1 = ended.2) ∧
    after.map Table.keys = scope.map Table.keys ∧
    (∀ depth name, name ∉ stmt.targets → after.at? depth name = scope.at? depth name) ∧
    (∀ depth name old, scope.at? depth name = some old →
      after.at? depth name = some ((Assigned.latest? depth name log).getD old)) ∧
    ∀ a ∈ log, a.name ∈ stmt.targets := by
  intro ended recorded after log
  have herase : ended = (recorded.1, recorded.2.1) := by
    have hlive : (Recorded.exec env scope stmt).erase.live cancels seen =
        (recorded.1, recorded.2.1) := live_bind _ _ seen
    rwa [Recorded.erase_exec] at hlive
  have hreach : stmt.reach = 0 := by
    cases stmt with
    | simple s => exact absurd rfl (hblock s)
    | _ => rfl
  have hkeeps : Holds stmt.targets 0 scope after log := by
    have hexec : Recorded.Keeps stmt.targets stmt.reach scope (Recorded.exec env scope stmt) :=
      Recorded.exec_keeps stmt scope (List.Subset.refl _)
    have hgives := gives_live cancels (Recorded.exec env scope stmt) seen
    have hholds := hexec recorded.2.1.1 recorded.2.1.2 recorded.2.2 hgives
    rw [hreach] at hholds
    change Holds stmt.targets 0 scope ended.2.1 recorded.2.2
    rwa [herase]
  have hreplay : after = replay log scope := hkeeps.replay
  refine ⟨by rw [herase]; exact ⟨rfl, rfl⟩, hkeeps.keys, fun depth name hname => ?_,
    fun depth name old hold => ?_, hkeeps.names⟩
  · rw [hreplay]
    refine at?_replay_of_not_assigned (fun a ha hsame => hname ?_) depth scope
    exact hsame ▸ hkeeps.names a ha
  · rw [hreplay]
    exact at?_replay hold log

/-- An assignment behind a declaration of the same name does not reach the scope around; another
does, and lasts when the loop is left. -/
theorem exec_blockScoped_shadowed :
    let env := Program.env ⟨[], []⟩ {}
    let scope : Scope := [[("x", 1), ("y", 2)]]
    let number (n : Int) : Expr := .literal {} (.number (.int n))
    let stmt : Stmt := .whileLoop "while (1)" (number 1)
      [.simple ⟨"int x = 5", .declares "int" [⟨"x", some (number 5)⟩]⟩,
        .simple ⟨"x = 6", .assigns "x" (.set (number 6))⟩,
        .simple ⟨"y = 7", .assigns "y" (.set (number 7))⟩, .simple ⟨"break", .breaks⟩]
    let after := ((exec env scope stmt).live (fun _ => false) []).2.1
    (∀ s, stmt ≠ .simple s) ∧
    after.map Table.keys = [["x", "y"]] ∧ after.at? 0 "x" = some 1 ∧ after.at? 0 "y" = some 7 := by
  intro env scope number stmt after
  have hblock : ∀ s, stmt ≠ .simple s := nofun
  obtain ⟨-, hkeys, -, hlast, -⟩ := exec_blockScoped env scope stmt hblock (fun _ => false) []
  have hlog : ((Recorded.exec env scope stmt).live (fun _ => false) []).2.2 =
      [⟨1, "x", 6⟩, ⟨0, "y", 7⟩] := rfl
  rw [hlog] at hlast
  exact ⟨hblock, hkeys, hlast 0 "x" 1 rfl, hlast 0 "y" 2 rfl⟩

end ToyC
