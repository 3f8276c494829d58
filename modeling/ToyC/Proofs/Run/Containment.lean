import ToyC.Proofs.Run.Simulation

/-!
What leaves a run, and what does not. A mistake is absorbed where a number is asked
for, a jump by the loop or the function around it, and a call that nests too deep or
a cancellation by the run, which says so last. Only faults of arithmetic and of
formatting reach the caller of a run. To see that nothing else takes notice of a
call that nests too deep, such calls are made to announce themselves: an
announcement is always the last thing that is seen.
-/

namespace ToyC

open Routine

/-! ### Faults -/

/-- However a routine comes to be cancelled, a fault that aborts it is one of arithmetic or
formatting. -/
def FaultsNumerically {α : Type} [Abortable α] (p : Routine α) : Prop :=
  ∀ cancels seen f, abort? (p.live cancels seen).2 = some (.fault f) → f.IsNumeric

theorem faultsNumerically_congruence : Congruence fun p _ => FaultsNumerically p where
  done := by
    intro α _ a h cancels seen f hf
    obtain ⟨g, hg, hnumeric⟩ := h _ hf
    cases hg
    exact hnumeric
  act := by
    intro α _ action rest _ h cancels seen f hf
    cases action <;> exact h cancels _ f hf
  yield := by
    intro α _ lost hlost next _ h cancels seen f hf
    rw [live_yieldPoint_bind] at hf
    split at hf
    · simp [hlost] at hf
    · split at hf
      · simp [hlost] at hf
      · exact h cancels _ f hf
  bind := by
    intro α β _ _ p _ next _ h stop go cancels seen f hf
    rw [live_bind] at hf
    cases ha : abort? (p.live cancels seen).2 with
    | none => exact go _ (gives_live cancels p seen) ha cancels _ f hf
    | some cause =>
        obtain ⟨b, hb, hsettles, -⟩ := stop _ cause ha
        rw [hsettles.live, hb] at hf
        exact h cancels seen f (ha.trans hf)

theorem activate_faults (functions : Table Function) (options : Options) (left : Nat)
    (f : Function) (args : List Number) :
    FaultsNumerically (activate functions options left f args) := by
  induction left generalizing f args with
  | zero =>
      intro cancels seen g hg
      cases hg
  | succ left ih =>
      rw [activate_succ]
      exact activateIn_related
        (faultsNumerically_congruence.simulates functions options.maxIterations
          (activate functions options left) (activate functions options left) ih) f args

/-! ### Calls that nest too deep -/

/-- Calls that make an announcement where they nest too deep. -/
def activateAnnouncing (announce : Routine Unit) (functions : Table Function) (options : Options) :
    Nat → Function → List Number → Routine (Except Abort Number)
  | 0, f, _ => announce.bind fun _ => .done (.error (.tooDeep f.name options.maxDepth.toNat))
  | left + 1, f, args =>
    f.activateIn
      { functions
        call := activateAnnouncing announce functions options left
        maxIterations := options.maxIterations } args

/-- Calls with nothing to announce are the calls of a run. -/
theorem activateAnnouncing_nothing (functions : Table Function) (options : Options) (left : Nat) :
    activateAnnouncing (.done ()) functions options left = activate functions options left := by
  induction left with
  | zero => rfl
  | succ left ih =>
      funext f args
      rw [activate_succ, envWithin, activateAnnouncing, ih]

/-- A text behind everything that is seen of a routine which is aborted because a call nests too
deep. -/
def announced {α : Type} [Abortable α] (text : String) (ended : List Sight × α) :
    List Sight × α :=
  match abort? ended.2 with
  | some (.tooDeep ..) => (ended.1 ++ [.chunk text], ended.2)
  | _ => ended

/-- Two routines that differ in one announcement, which is the last thing that is seen. -/
def Announces {α : Type} [Abortable α] (text : String) (p p' : Routine α) : Prop :=
  ∀ cancels seen, p'.live cancels seen = announced text (p.live cancels seen)

theorem announced_of_eq_none {α : Type} [Abortable α] {text : String} {ended : List Sight × α}
    (h : abort? ended.2 = none) : announced text ended = ended := by
  simp [announced, h]

theorem announces_congruence (text : String) : Congruence fun p p' => Announces text p p' where
  done := by
    intro α _ a h cancels seen
    cases ha : abort? a with
    | none => simp [announced, ha]
    | some cause =>
        obtain ⟨f, rfl, -⟩ := h cause ha
        simp [announced, ha]
  act := by
    intro α _ action rest rest' h cancels seen
    cases action <;> exact h cancels _
  yield := by
    intro α _ lost hlost next next' h cancels seen
    simp only [live_yieldPoint_bind]
    split
    · simp [announced, hlost]
    · split
      · simp [announced, hlost]
      · exact h cancels _
  bind := by
    intro α β _ _ p p' next next' h stop go cancels seen
    rw [live_bind, live_bind, h cancels seen]
    cases ha : abort? (p.live cancels seen).2 with
    | none =>
        rw [announced_of_eq_none ha]
        exact go _ (gives_live cancels p seen) ha cancels _
    | some cause =>
        -- the announcement stays last, because what follows an abort shows nothing
        obtain ⟨b, hb, hsettles, hsame⟩ := stop _ cause ha
        cases cause <;> simp [announced, ha, hb, hsame, hsettles.live]

/-- However deep it comes about, and whatever is being evaluated or executed there, a call that
nests too deep ends everything around it. -/
theorem activate_announces (text : String) (functions : Table Function) (options : Options)
    (left : Nat) (f : Function) (args : List Number) :
    Announces text (activate functions options left f args)
      (activateAnnouncing (.perform (.print text)) functions options left f args) := by
  induction left generalizing f args with
  | zero =>
      intro cancels seen
      rfl
  | succ left ih =>
      rw [activate_succ]
      exact activateIn_related
        ((announces_congruence text).simulates functions options.maxIterations _ _ ih) f args

/-! ### Jumps -/

/-- What a function gives to its caller by the way its body ends. -/
def Ending.value : Ending → Except Abort Number
  | .completed | .broke | .continued => .ok 0
  | .returned a => .ok a
  | .aborted cause => .error cause

/-- A call shows what the body shows, and gives nothing of the way it ended but a number or an
abort. -/
theorem activateIn_live (cancels : List Sight → Bool) (env : Env) (f : Function)
    (args : List Number) (seen : List Sight) :
    let body := (execBlock env [bindParams f.signature.params args []] f.body).live cancels seen
    (f.activateIn env args).live cancels seen = (body.1, body.2.2.value) := by
  intro body
  change ((execBlock env [bindParams f.signature.params args []] f.body).bind _).live cancels seen
    = _
  rw [live_bind]
  change (Routine.live cancels ((Routine.perform .leave).bind fun _ =>
    body.2.2.result f.name) body.1) = _
  cases body.2.2 <;> rfl

/-! ### Runs -/

/-- The artifact has a main function, and this is how calling it ends. -/
def MainEnds (artifact : Node) (options : Options) (cancels : List Sight → Bool)
    (seen : List Sight) (ended : Except Abort Number) : Prop :=
  ∃ text main, artifact.program? = some text ∧
    let p := Program.read (Source.preprocess text.toList)
    Table.get? "main" p.functions = some main ∧
      (activate p.functions options options.maxDepth.toNat main []).live cancels [] = (seen, ended)

theorem MainEnds.fault_isNumeric {artifact : Node} {options : Options}
    {cancels : List Sight → Bool} {seen : List Sight} {f : Fault}
    (h : MainEnds artifact options cancels seen (.error (.fault f))) : f.IsNumeric := by
  obtain ⟨text, main, -, -, hlive⟩ := h
  have hfault := activate_faults (Program.read (Source.preprocess text.toList)).functions options
    options.maxDepth.toNat main [] cancels [] f
  rw [hlive] at hfault
  exact hfault rfl

/-- The ways in which a run can end, each with all that is seen and the result. -/
inductive RunEnds (artifact : Node) (options : Options) (cancels : List Sight → Bool) :
    List Sight × RunResult → Prop
  | refused (h : artifact.program? = none) :
      RunEnds artifact options cancels
        ([.chunk "Error: Not a valid executable format\n"], .ok none)
  | noMain {text : String} (h : artifact.program? = some text)
      (hmain : Table.get? "main" (Program.read (Source.preprocess text.toList)).functions = none) :
      RunEnds artifact options cancels ([.chunk "Error: no main function found\n"], .ok none)
  | returned {seen : List Sight} {status : Number}
      (h : MainEnds artifact options cancels seen (.ok status)) :
      RunEnds artifact options cancels (seen, .ok (some status))
  | cancelled {seen : List Sight} (h : MainEnds artifact options cancels seen (.error .cancelled)) :
      RunEnds artifact options cancels (seen ++ [.chunk "^C\n"], .ok none)
  | tooDeep {seen : List Sight} {function : String} {depth : Nat}
      (h : MainEnds artifact options cancels seen (.error (.tooDeep function depth))) :
      RunEnds artifact options cancels
        (seen ++ [.chunk "Error: maximum recursion depth exceeded\n"], .ok none)
  | faulted {seen : List Sight} {f : Fault}
      (h : MainEnds artifact options cancels seen (.error (.fault f))) (hnumeric : f.IsNumeric) :
      RunEnds artifact options cancels (seen, .error f)

theorem recordAll_bind_live {α : Type} (cancels : List Sight → Bool) (notes : List Note)
    (next : Unit → Routine α) (seen : List Sight) :
    ((recordAll notes).bind next).live cancels seen = (next ()).live cancels seen := by
  induction notes with
  | nil => rfl
  | cons n rest ih => exact ih

theorem endWith_live (cancels : List Sight → Bool) (n : Option Note) {text : String}
    (h : text ≠ "") (seen : List Sight) :
    (endWith n text).live cancels seen = (seen ++ [.chunk text], .ok none) := by
  rw [endWith, recordAll_bind_live, live_emit_bind h]
  rfl

/-- A run of a program with a main function ends in the way that its main function does. -/
theorem run_mainEnds {artifact : Node} {options : Options} {cancels : List Sight → Bool}
    {text : String} (htext : artifact.program? = some text) {main : Function}
    (hmain : Table.get? "main" (Program.read (Source.preprocess text.toList)).functions =
      some main) :
    ∃ seen ended, MainEnds artifact options cancels seen ended ∧
      (run artifact options).live cancels [] =
        (conclude artifact.name (ended.mapError .abort)).live cancels seen := by
  let p := Program.read (Source.preprocess text.toList)
  let called := (activate p.functions options options.maxDepth.toNat main []).live cancels []
  refine ⟨called.1, called.2, ⟨text, main, htext, hmain, rfl⟩, ?_⟩
  have hcontains : Table.contains "main" p.functions = true := by
    simp [Table.contains, p, hmain]
  have hcall : (p.call options "main" []).live cancels [] =
      (called.1, called.2.mapError .abort) := by
    have hcalled : ((p.env options).call main []).live cancels [] = called := rfl
    simp only [Program.call, p, hmain, live_bind]
    rw [hcalled]
    cases called.2 <;> rfl
  simp only [run, htext, runProgram, recordAll_bind_live]
  rw [if_pos hcontains, live_record_bind, live_bind, hcall]

/-- A run without a main function cannot start. -/
theorem run_noMain {artifact : Node} {options : Options} (cancels : List Sight → Bool)
    {text : String} (htext : artifact.program? = some text)
    (hmain : Table.get? "main" (Program.read (Source.preprocess text.toList)).functions = none) :
    (run artifact options).live cancels [] =
      ([.chunk "Error: no main function found\n"], .ok none) := by
  have hcontains : ¬Table.contains "main"
      (Program.read (Source.preprocess text.toList)).functions = true := by
    simp [Table.contains, hmain]
  simp only [run, htext, runProgram, recordAll_bind_live]
  rw [if_neg hcontains]
  exact endWith_live cancels none (by decide) []

theorem run_ends (artifact : Node) (options : Options) (cancels : List Sight → Bool) :
    RunEnds artifact options cancels ((run artifact options).live cancels []) := by
  cases htext : artifact.program? with
  | none =>
      have hrun : run artifact options =
          endWith (some (.refused artifact.name)) "Error: Not a valid executable format\n" := by
        simp only [run, htext]
      rw [hrun, endWith_live cancels _ (by decide)]
      exact .refused htext
  | some text =>
      cases hmain : Table.get? "main"
          (Program.read (Source.preprocess text.toList)).functions with
      | none =>
          rw [run_noMain cancels htext hmain]
          exact .noMain htext hmain
      | some main =>
          obtain ⟨seen, ended, hends, hrun⟩ := run_mainEnds htext hmain
          rw [hrun]
          cases ended with
          | ok status => exact .returned hends
          | error cause =>
              cases cause with
              | cancelled =>
                  change RunEnds artifact options cancels
                    ((conclude artifact.name (.error (.abort .cancelled))).live cancels seen)
                  rw [conclude, endWith_live cancels _ (by decide)]
                  exact .cancelled hends
              | tooDeep function depth =>
                  change RunEnds artifact options cancels
                    ((conclude artifact.name (.error (.abort (.tooDeep function depth)))).live
                      cancels seen)
                  rw [conclude, endWith_live cancels _ (by decide)]
                  exact .tooDeep hends
              | fault f => exact .faulted hends hends.fault_isNumeric

/-- Every run, however it is cancelled, ends in one of the ways above. On the way, a call that nests
too deep ends the call it is made in, wherever that call was made: nothing is seen behind the
announcement of such a call. And a call whose body ends by a jump gives zero, as one does whose
body completes. -/
theorem run_contained (artifact : Node) (options : Options) (cancels : List Sight → Bool) :
    RunEnds artifact options cancels ((run artifact options).live cancels []) ∧
    ∀ (functions : Table Function) (left : Nat) (f : Function) (args : List Number)
      (seen : List Sight),
      (∀ text, (activateAnnouncing (.perform (.print text)) functions options left f args).live
          cancels seen =
        announced text ((activate functions options left f args).live cancels seen)) ∧
      (let env := envWithin functions options left
        let body :=
          (execBlock env [bindParams f.signature.params args []] f.body).live cancels seen
        (activate functions options (left + 1) f args).live cancels seen =
          (body.1, body.2.2.value)) := by
  refine ⟨run_ends artifact options cancels, fun functions left f args seen => ⟨fun text => ?_, ?_⟩⟩
  · exact activate_announces text functions options left f args cancels seen
  · exact activateIn_live cancels (envWithin functions options left) f args seen

end ToyC
