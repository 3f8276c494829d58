import ToyC.Proofs.Run.Simulation

/-!
Cancellation of a run. Loops, blocks, calls and expressions all pass a
cancellation on without a word, because the only handler of an expression is for
mistakes and the only handlers of a loop and a call are for jumps and returned
values. So a run that is cancelled at some check shows what it would have shown
before that check, and then only says that it was cancelled.
-/

namespace ToyC

open Routine

/-- A routine that is cancelled gives nothing but the cancellation, without a word. -/
abbrev HeedsCancellation {α : Type} [Abortable α] (p : Routine α) : Prop :=
  p.Heeds (fun a => abort? a = some .cancelled) []

/-- A yield point is where cancellation starts: both of its checks end the routine. Everything else
lets it through. -/
theorem heedsCancellation_congruence : Congruence fun p _ => HeedsCancellation p where
  done := by
    intro α _ a _
    exact .done a
  act := by
    intro α _ action rest _ h
    exact .act h
  yield := by
    intro α _ lost hlost next _ h
    exact .check (.done hlost) (.act (.check (.done hlost) h))
  bind := by
    intro α β _ _ p _ next _ h stop go
    apply h.bind
    · intro a ha
      obtain ⟨b, hb, hsettles, -⟩ := stop a _ ha
      exact hsettles.imp fun value hvalue => hvalue ▸ hb
    · intro a hgives
      cases ha : abort? a with
      | none => exact go a hgives ha
      | some cause =>
          obtain ⟨b, -, hsettles, -⟩ := stop a cause ha
          exact hsettles.heeds

/-- A function lets a cancellation of its body through, however deep it is called. -/
theorem activate_heeds (functions : Table Function) (options : Options) (left : Nat)
    (f : Function) (args : List Number) :
    HeedsCancellation (activate functions options left f args) := by
  induction left generalizing f args with
  | zero => exact .done _
  | succ left ih =>
      rw [activate_succ]
      exact activateIn_related
        (heedsCancellation_congruence.simulates functions options.maxIterations
          (activate functions options left) (activate functions options left) ih) f args

/-! ### Runs -/

/-- An action in front changes nothing about heeding. -/
theorem Routine.Heeds.perform_bind {α : Type} {final : α → Prop} {last : List String}
    (action : Action) {next : Unit → Routine α} (h : (next ()).Heeds final last) :
    ((Routine.perform action).bind next).Heeds final last :=
  .act h

theorem recordAll_bind_heeds {α : Type} {final : α → Prop} {last : List String} (notes : List Note)
    {next : Unit → Routine α} (h : (next ()).Heeds final last) :
    ((recordAll notes).bind next).Heeds final last := by
  induction notes with
  | nil => exact h
  | cons n rest ih => exact .act ih

theorem endWith_heeds {final : RunResult → Prop} {last : List String} (n : Option Note)
    (text : String) : (endWith n text).Heeds final last := by
  refine recordAll_bind_heeds _ ?_
  unfold Routine.emit
  split
  · exact .done _
  · exact .perform_bind _ (.done _)

theorem call_heeds (p : Program) (options : Options) (name : String) (args : List Number) :
    HeedsCancellation (p.call options name args) := by
  unfold Program.call
  split
  · exact .done _
  · apply (activate_heeds p.functions options _ _ args).bind
    · rintro (cause | a) hcancelled
      · exact .done hcancelled
      · cases hcancelled
    · rintro (cause | a) - <;> exact .done _

/-- A run that is cancelled says so last, and has no status. -/
theorem run_heeds (artifact : Node) (options : Options) :
    (run artifact options).Heeds (fun result => result = .ok none) ["^C\n"] := by
  unfold run
  split
  · exact endWith_heeds _ _
  · apply recordAll_bind_heeds
    split
    · refine .perform_bind _ ?_
      apply (call_heeds _ options "main" []).bind
      · rintro (stop | a) hcancelled
        · cases stop with
          | mistake cause => cases hcancelled
          | abort cause =>
              cases hcancelled
              exact .silent (by simp) (.print (.done rfl))
        · cases hcancelled
      · intro result _
        unfold conclude
        split
        · exact .perform_bind _ (.done _)
        · exact endWith_heeds _ _
        · exact endWith_heeds _ _
        · exact .done _
        · exact endWith_heeds _ _
    · exact endWith_heeds _ _

/-- A run of any source text under any limits, cancelled at its check number `k`, compared with the
run that is never cancelled. If that one comes to make the check, the cancelled run shows the
chunks in front of the check and then one last chunk, makes no other check, and has no status.
If it does not, the two runs cannot be told apart. The first part says what the sights are: the
chunks and the checks of the run that is never cancelled. -/
theorem observe_cancelAt (text : String) (options : Options) (k : Nat) :
    let p := runSource text options
    let whole := p.observe {}
    let cut := p.observe (.cancelAt k)
    (whole.1.chunks.toList = Sight.chunks p.sights ∧ whole.1.checks = Sight.checks p.sights) ∧
    (k < whole.1.checks →
      cut.1.chunks.toList = Sight.chunks (Sight.before k p.sights) ++ ["^C\n"] ∧
        cut.1.checks = k + 1 ∧ cut.2 = .ok none) ∧
    (whole.1.checks ≤ k →
      cut.1.chunks = whole.1.chunks ∧ cut.1.checks = whole.1.checks ∧ cut.2 = whole.2) := by
  have hheeds : (runSource text options).Heeds (fun result => result = .ok none) ["^C\n"] :=
    .perform_bind _ (run_heeds _ options)
  exact ⟨(Routine.observe_uncancelled _).1, hheeds.observe_cancelled k⟩

end ToyC
