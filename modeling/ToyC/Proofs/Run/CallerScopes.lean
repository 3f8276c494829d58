import ToyC.Proofs.Run.Agreement

/-!
The scopes of the callers. Whatever an expression evaluates and whatever its calls
execute, the scopes that were there before keep their bindings, however the
evaluation ends; and what a call shows and gives does not depend on them.
-/

namespace ToyC.InPlace

variable {α : Type} {c : Nat} {tree : ScopeTree} {i : Nat}

/-- With fuel for its cost an interpretation in place ends; however it is cancelled, it shows and
gives what a routine does, and all bindings of all scopes that were there are as they were. -/
def KeepsScopes (c : Nat) (tree : ScopeTree) (p : InPlace α) (q : Routine α) : Prop :=
  ∀ fuel, c ≤ fuel → ∀ cancels seen, ∃ after : Store,
    (p.run ⟨tree, fuel⟩).run.live cancels seen =
      ((q.live cancels seen).1, some ((q.live cancels seen).2, after)) ∧
    tree.nodes <+: after.scopes.nodes

theorem Reads.keepsScopes {p : InPlace α} {q : Routine α}
    (h : ∀ fuel, Reads c ⟨tree, fuel⟩ p q) : KeepsScopes c tree p q := by
  intro fuel hfuel cancels seen
  obtain ⟨hsights, after, hvalue, hmore, -⟩ := (h fuel hfuel).live cancels seen
  exact ⟨after, Prod.ext hsights hvalue, hmore⟩

/-- What has been seen of an interpretation from a store when it ends, and its value. -/
def shown (s : Store) (p : InPlace α) (cancels : List Sight → Bool) (seen : List Sight) :
    List Sight × Option α :=
  let (sights, result) := (p.run s).run.live cancels seen
  (sights, result.map Prod.fst)

theorem KeepsScopes.shown_eq {p : InPlace α} {q : Routine α} (h : KeepsScopes c tree p q)
    {fuel : Nat} (hfuel : c ≤ fuel) (cancels : List Sight → Bool) (seen : List Sight) :
    p.shown ⟨tree, fuel⟩ cancels seen =
      ((q.live cancels seen).1, some (q.live cancels seen).2) := by
  obtain ⟨after, hlive, -⟩ := h fuel hfuel cancels seen
  simp only [shown, hlive, Option.map_some]

/-- An expression keeps the scopes that it is evaluated among, as a number and as an argument to
print, and a call keeps those of its callers. Moreover a call shows and gives the same whatever
scopes its callers have. The depth is any that a run can reach: the calls that nest and those that
still may are as many as the limit allows. -/
theorem evaluation_keepsScopes (functions : Table Function) (options : Options)
    {depth left units : Nat} (hdepth : depth + left = options.maxDepth.toNat)
    (hunits : left < units) (hi : i < tree.nodes.length) (e : Expr) :
    let env := envAt functions options units depth
    let running := ToyC.envWithin functions options left
    let prices := Prices.within functions options.maxIterations.toNat left
    (KeepsScopes (prices.expr e) tree (evaluate env i e)
        (ToyC.evaluate running (tree.chain i) e) ∧
      KeepsScopes (prices.expr e) tree (evalArgument env i e)
        (Evaluation.absorb .degradedArgument (ToyC.eval running (tree.chain i) e))) ∧
    ∀ (name : String) (f : Function), Table.get? name functions = some f →
      ∀ (args : List Number) (callers : ScopeTree),
        KeepsScopes prices.call callers (env.call f args) (running.call f args) ∧
        ∀ (others : ScopeTree) (fuel : Nat), prices.call ≤ fuel → ∀ cancels seen,
          (env.call f args).shown ⟨callers, fuel⟩ cancels seen =
            (env.call f args).shown ⟨others, fuel⟩ cancels seen := by
  intro env running prices
  have hmatches : Matches prices env running := envAt_matches functions options hdepth hunits
  have hsees : ∀ fuel, Sees (⟨tree, fuel⟩ : Store).scopes i (tree.chain i) := fun _ => ⟨hi, rfl⟩
  have hcalls : ∀ {name f}, Table.get? name functions = some f → ∀ args callers,
      KeepsScopes prices.call callers (env.call f args) (running.call f args) :=
    fun hf args callers => Reads.keepsScopes fun fuel => hmatches.call hf args ⟨callers, fuel⟩
  refine ⟨⟨Reads.keepsScopes fun fuel => evaluate_reads hmatches (hsees fuel) e,
    Reads.keepsScopes fun fuel => (eval_reads hmatches e (hsees fuel)).absorb .degradedArgument⟩,
    fun name f hf args callers =>
      ⟨hcalls hf args callers, fun others fuel hfuel cancels seen => ?_⟩⟩
  rw [(hcalls hf args callers).shown_eq hfuel, (hcalls hf args others).shown_eq hfuel]

/-- A function that declares and assigns names which its caller has as well, and calls itself as
long as calls may nest. -/
def grasping : Table Function :=
  let x : Expr := .name {} "x"
  let y : Expr := .name {} "y"
  [("grasp",
    { signature := ⟨"int", "grasp", [⟨"int", "x"⟩]⟩
      lines := []
      body :=
        [.simple ⟨"int y = x;", .declares "int" [⟨"y", some x⟩]⟩,
          .simple ⟨"x = 5;", .assigns "x" (.set (.literal {} (.number 5)))⟩,
          .simple ⟨"z = 5;", .assigns "z" (.set (.literal {} (.number 5)))⟩,
          .simple ⟨"return grasp(y);", .returns (some (.call {} "grasp" [y]))⟩] })]

/-- A scope that binds two names, and one inside it that binds a third. -/
def callerScopes : ScopeTree :=
  ⟨[⟨none, [("x", 1), ("z", 2)]⟩, ⟨some 0, [("y", 3)]⟩]⟩

theorem callerScopes_chain : callerScopes.chain 1 = [[("y", 3)], [("x", 1), ("z", 2)]] := by
  have houter : callerScopes.nodes[0]? = some ⟨none, [("x", 1), ("z", 2)]⟩ := rfl
  have hinner : callerScopes.nodes[1]? = some ⟨some 0, [("y", 3)]⟩ := rfl
  rw [ScopeTree.chain_inner hinner rfl Nat.zero_lt_one,
    ScopeTree.chain_outermost houter fun _ h => nomatch h]

/-- The third call that nests is refused, which aborts the evaluation. -/
theorem evaluation_keepsScopes_grasping :
    (0 + 2 = (2 : Int).toNat ∧ 2 < 3 ∧ 1 < callerScopes.nodes.length) ∧
    ∃ sights after,
      ((evaluate (envAt grasping ⟨1000, 2⟩ 3 0) 1 (.call {} "grasp" [.name {} "y"])).run
          ⟨callerScopes, 60⟩).run.live (fun _ => false) [] =
        (sights, some (.error (.tooDeep "grasp" 2), after)) ∧
      callerScopes.nodes <+: after.scopes.nodes := by
  have hi : 1 < callerScopes.nodes.length := by decide
  obtain ⟨⟨hkeeps, -⟩, -⟩ := @evaluation_keepsScopes callerScopes 1 grasping ⟨1000, 2⟩ 0 2 3 rfl
    (by decide) hi (.call {} "grasp" [.name {} "y"])
  obtain ⟨after, hlive, hmore⟩ := hkeeps 60 (by decide) (fun _ => false) []
  have hvalue : ((ToyC.evaluate (ToyC.envWithin grasping ⟨1000, 2⟩ 2)
      [[("y", 3)], [("x", 1), ("z", 2)]] (.call {} "grasp" [.name {} "y"])).live
        (fun _ => false) []).2 = .error (.tooDeep "grasp" 2) := rfl
  rw [callerScopes_chain, hvalue] at hlive
  exact ⟨⟨rfl, by decide, hi⟩, _, after, hlive, hmore⟩

end ToyC.InPlace
