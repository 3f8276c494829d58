import ToyC.Proofs.Run.Visibility
import ToyC.Run.Call

/-!
What a block can tell of the scopes around it. Chains in which every name stands for the
same number may store it in different scopes, and an assignment then changes different ones;
but it is seen in both, so no block tells them apart. Other chains are told apart, by a block
that returns a variable, or by one that assigns it first.
-/

namespace ToyC

open Routine

namespace Scope

/-- Every name is bound in both chains or in neither, and stands for the same number. -/
def Agree (s t : Scope) : Prop :=
  ∀ name, get? name s = get? name t

theorem get?_child (name : String) (scope : Scope) : get? name scope.child = get? name scope := rfl

/-- Where a name is bound, an assignment is what is seen of it; elsewhere it stays unbound. -/
theorem get?_set_map (name : String) (value : Number) (scope : Scope) :
    get? name (set name value scope) = (get? name scope).map fun _ => value := by
  induction scope with
  | nil => rfl
  | cons inner outer ih =>
      cases hinner : Table.get? name inner with
      | some old => simp [set, Table.contains, hinner, get?, Table.get?_insert_self]
      | none => simp [set, Table.contains, hinner, get?, ih]

/-- An assignment may reach scopes at different places, and is seen alike. -/
theorem Agree.set {s t : Scope} (h : Agree s t) (name : String) (value : Number) :
    Agree (set name value s) (set name value t) := by
  intro other
  by_cases hother : other = name
  · rw [hother, get?_set_map, get?_set_map, h name]
  · rw [get?_set_of_ne hother, get?_set_of_ne hother, h other]

theorem indistinct_agree : Indistinct Agree where
  reads h := h
  set := Agree.set

end Scope

open Scope Execution

variable {env : Env} {s t : Scope}

/-- A block in a scope of its own does the same inside chains that agree, and they agree again. -/
theorem inChild_alike (h : Agree s t) (body : List Stmt) :
    Alike (Under Agree 0) (inChild s fun inner => execBlock env inner body)
      (inChild t fun inner => execBlock env inner body) :=
  .inChild (.outer h) fun _ _ hinner => execBlock_alike indistinct_agree body hinner

/-- A block in a scope of its own: what is seen of it, the chain that it leaves, and how it ends. -/
def runInside (env : Env) (body : List Stmt) (cancels : List Sight → Bool) (seen : List Sight)
    (scope : Scope) : List Sight × Scope × Ending :=
  (inChild scope fun inner => execBlock env inner body).live cancels seen

/-- Execution depends on visible bindings alone. Inside chains in which every name stands for the
same number a block shows the same, however it is cancelled, and ends in the same way; afterwards
every name stands for the same number in both chains again. -/
theorem execBlock_visibleBindings (env : Env) (body : List Stmt) {s t : Scope} (h : Agree s t)
    (cancels : List Sight → Bool) (seen : List Sight) :
    (runInside env body cancels seen s).1 = (runInside env body cancels seen t).1 ∧
      (runInside env body cancels seen s).2.2 = (runInside env body cancels seen t).2.2 ∧
      Agree (runInside env body cancels seen s).2.1 (runInside env body cancels seen t).2.1 := by
  obtain ⟨hsights, hends⟩ := (inChild_alike h body).live cancels seen
  exact ⟨hsights, hends.ending, hends.scopes.outside⟩

/-- Three scopes that bind `x` twice, and one with the same numbers in another order. The block
declares a `y` of its own in a loop, and changes, prints and returns the one outside. -/
theorem execBlock_visibleBindings_flat :
    let env := Program.env ⟨[], []⟩ {}
    let nested : Scope := [[("x", 2)], [], [("y", 3), ("x", 9)]]
    let flat : Scope := [[("y", 3), ("x", 2)]]
    let x : Expr := .name {} "x"
    let y : Expr := .name {} "y"
    let body : List Stmt :=
      [.whileLoop "while (x)" x
        [.simple ⟨"x--", .assigns "x" .decrement⟩,
          .simple ⟨"int y = x", .declares "int" [⟨"y", some x⟩]⟩,
          .simple ⟨"printf", .prints "%d" [y]⟩],
        .simple ⟨"y++", .assigns "y" .increment⟩,
        .simple ⟨"printf", .prints "%d" [y]⟩,
        .simple ⟨"return y", .returns (some y)⟩]
    let inNested := runInside env body (fun _ => false) [] nested
    let inFlat := runInside env body (fun _ => false) [] flat
    Agree nested flat ∧ Sight.chunks inNested.1 = ["1", "0", "4"] ∧
      inNested.1 = inFlat.1 ∧ inNested.2.2 = inFlat.2.2 ∧ Agree inNested.2.1 inFlat.2.1 := by
  intro env nested flat x y body inNested inFlat
  have h : Agree nested flat := by
    intro name
    by_cases hx : name = "x"
    · rw [hx]; rfl
    by_cases hy : name = "y"
    · rw [hy]; rfl
    simp [nested, flat, get?, Table.get?, Ne.symm hx, Ne.symm hy]
  refine ⟨h, by decide +kernel, ?_⟩
  simp only [inNested, inFlat]
  exact execBlock_visibleBindings env body h (fun _ => false) []

/-! ### Chains that differ -/

theorem runInside_never (body : List Stmt) (scope : Scope) :
    (runInside env body (fun _ => false) [] scope).2.2 =
      (execBlock env scope.child body).outcome.2 := by
  rw [runInside, live_never, inChild, outcome_bind]
  rfl

/-- A block goes on behind a statement that completes. -/
theorem outcome_execBlock_cons {stmt : Stmt} {scope after : Scope}
    (h : (exec env scope stmt).outcome = (after, .completed)) (rest : List Stmt) :
    (execBlock env scope (stmt :: rest)).outcome = (execBlock env after rest).outcome := by
  rw [execBlock, outcome_bind, h]
  exact outcome_bind yieldPoint _

theorem outcome_evaluate_name (pos : Position) (ident : String) (scope : Scope) :
    (evaluate env scope (.name pos ident)).outcome = .ok ((get? ident scope).getD 0) := by
  simp only [evaluate, eval]
  cases get? ident scope <;> rfl

/-- A block that returns a variable gives its number, and zero for one that is not bound. -/
theorem outcome_returns (src name : String) (pos : Position) (scope : Scope) :
    (execBlock env scope [.simple ⟨src, .returns (some (.name pos name))⟩]).outcome =
      (scope, .returned ((get? name scope).getD 0)) := by
  simp only [execBlock, exec, execDeed, withNumber, outcome_bind, outcome_evaluate_name]
  rfl

theorem outcome_assign_number (name : String) (pos : Position) (value : Number) (scope : Scope) :
    ∃ after, (assign env scope name (.set (.literal pos (.number value)))).outcome =
        (after, .completed) ∧
      get? name after = (get? name scope).map fun _ => value := by
  cases hfound : get? name scope with
  | none => exact ⟨scope, by rw [assign, hfound]; rfl, hfound⟩
  | some old =>
      refine ⟨scope.set name value, by rw [assign, hfound]; rfl, ?_⟩
      rw [get?_set_map, hfound]

/-- A block that assigns a variable before it returns it gives the new number, and zero for one
that is not bound. -/
theorem outcome_assigns_returns (src name : String) (pos : Position) (value : Number)
    (scope : Scope) :
    (execBlock env scope [.simple ⟨src, .assigns name (.set (.literal pos (.number value)))⟩,
        .simple ⟨src, .returns (some (.name pos name))⟩]).outcome.2 =
      .returned (((get? name scope).map fun _ => value).getD 0) := by
  obtain ⟨after, hassigned, hafter⟩ := @outcome_assign_number env name pos value scope
  have hexec : (exec env scope
      (.simple ⟨src, .assigns name (.set (.literal pos (.number value)))⟩)).outcome =
        (after, .completed) := by
    rw [exec, execDeed, hassigned]
  rw [outcome_execBlock_cons hexec, outcome_returns, hafter]

/-- Chains are told apart by some block, unless every name stands for the same number in both. -/
theorem agree_of_runInside (h : ∀ body, (runInside env body (fun _ => false) [] s).2.2 =
    (runInside env body (fun _ => false) [] t).2.2) : Agree s t := by
  intro name
  have hreturned := h [.simple ⟨"", .returns (some (.name {} name))⟩]
  have hassigned := h [.simple ⟨"", .assigns name (.set (.literal {} (.number 1)))⟩,
    .simple ⟨"", .returns (some (.name {} name))⟩]
  simp only [runInside_never, outcome_returns, outcome_assigns_returns, get?_child,
    Ending.returned.injEq] at hreturned hassigned
  have hone : (1 : Number) ≠ 0 := nofun
  cases hs : get? name s <;> cases ht : get? name t <;> rw [hs, ht] at hreturned hassigned
  case none.some b => exact absurd hassigned.symm hone
  case some.none a => exact absurd hassigned hone
  case some.some a b => exact congrArg some hreturned

end ToyC
