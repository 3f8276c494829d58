import ToyC.Proofs.Run.Agreement

/-!
Every run ends. A number of units of fuel that is found from a program and its
limits alone is enough for every call of every function of the program, so a run
executes no more statements and evaluates no more nodes of expressions than that.
-/

namespace ToyC.InPlace

open Routine

/-- What a call from outside does in place. It starts with units for the calls that may nest. -/
theorem call_reads (p : Program) (options : Options) (name : String) (args : List Number)
    {s : Store} (hfuel : p.enoughFuel options ≤ s.fuel) :
    Reads (p.enoughFuel options) s (call p options name args) (p.call options name args) := by
  unfold call Program.call
  cases hf : Table.get? name p.functions with
  | none => exact (Reads.pure _).mono (Nat.zero_le _)
  | some f =>
      have hunits : options.maxDepth.toNat < s.fuel :=
        Nat.lt_of_lt_of_le (Prices.lt_within_call _ _ _) hfuel
      have hcall := (envAt_matches p.functions options (Nat.zero_add _) hunits).call hf args s
      refine Reads.started ?_
      exact hcall.unlessAborted (d := 0) (fun _ => rfl) (fun _ => rfl) fun _ _ _ => .pure _

/-- With enough fuel a call from outside ends, and some of the fuel that there is beyond that is
left. However it is cancelled, or if it is not, it shows and gives what the running program does. -/
theorem call_ends (p : Program) (options : Options) (name : String) (args : List Number)
    (scopes : ScopeTree) (spare : Nat) (cancels : List Sight → Bool) (seen : List Sight) :
    let running := (p.call options name args).live cancels seen
    ∃ after : Store,
      ((call p options name args).run
          ⟨scopes, p.enoughFuel options + spare⟩).run.live cancels seen =
        (running.1, some (running.2, after)) ∧ spare ≤ after.fuel := by
  have hfuel : p.enoughFuel options ≤ p.enoughFuel options + spare := Nat.le_add_right _ _
  obtain ⟨hsights, after, hvalue, -, hspent⟩ :=
    Lockstep.live (call_reads p options name args (s := ⟨scopes, _⟩) hfuel hfuel) cancels seen
  exact ⟨after, Prod.ext hsights hvalue, by simp only at hspent; omega⟩

/-- A program that would repeat for ever. -/
def endless : Program :=
  { lines := []
    functions :=
      [("main",
        { signature := ⟨"int", "main", []⟩
          lines := []
          body := [.whileLoop "while (1);" (.literal {} (.number 1)) []] })] }

-- a unit goes to the call, one to the loop, and two to each of six tests, of which the last finds
-- that five iterations have been made
example : endless.enoughFuel ⟨5, 1⟩ = 15 ∧
    ((call endless ⟨5, 1⟩ "main" []).run ⟨⟨[]⟩, 14⟩).run.outcome.isSome = true ∧
    ((call endless ⟨5, 1⟩ "main" []).run ⟨⟨[]⟩, 13⟩).run.outcome.isNone = true :=
  ⟨rfl, rfl, rfl⟩

end ToyC.InPlace
