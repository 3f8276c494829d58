import ToyC.Proofs.Run.Simulation

/-!
Limits matter only where they are hit. Two runs of one program under different
limits, the second no less than the first, do the same until the first run reports
a loop or is aborted because calls nest too deep. What is seen in front of that is
the beginning of what is seen of the other run.
-/

namespace ToyC

open Routine

/-- Whether a note says that a limit has been hit: a loop has been reported, or the run has been
aborted because calls nest too deep. Such a call passes unseen to the note. -/
def Note.isLimit : Note → Bool
  | .runawayLoop .. | .aborted .. => true
  | _ => false

namespace Routine

variable {α β : Type}

/-- The notes of a routine that is never cancelled. -/
def notes : Routine α → List Note
  | .done _ => []
  | .act (.note n) rest => n :: (rest ()).notes
  | .act _ rest => (rest ()).notes
  | .check resume => (resume false).notes

/-- Whether a routine that is never cancelled comes to note that a limit has been hit. -/
def hitsLimit (p : Routine α) : Bool :=
  p.notes.any Note.isLimit

/-- What is seen of a routine that is never cancelled, up to the first note that a limit has been
hit. -/
def sightsToLimit : Routine α → List Sight
  | .done _ => []
  | .act (.note n) rest => if n.isLimit then [] else (rest ()).sightsToLimit
  | .act (.print chunk) rest => .chunk chunk :: (rest ()).sightsToLimit
  | .act _ rest => (rest ()).sightsToLimit
  | .check resume => .check :: (resume false).sightsToLimit

/-! ### Routines one after another -/

theorem notes_bind (p : Routine α) (next : α → Routine β) :
    (p.bind next).notes = p.notes ++ (next p.outcome).notes := by
  induction p with
  | done value => rfl
  | act action rest ih => cases action <;> simp [notes, outcome, ih ()]
  | check resume ih => simp [notes, outcome, ih false]

theorem hitsLimit_bind (p : Routine α) (next : α → Routine β) :
    (p.bind next).hitsLimit = (p.hitsLimit || (next p.outcome).hitsLimit) := by
  simp [hitsLimit, notes_bind]

/-- A limit that is hit hides what comes behind it. -/
theorem sightsToLimit_bind_of_hit {p : Routine α} (h : p.hitsLimit = true)
    (next : α → Routine β) : (p.bind next).sightsToLimit = p.sightsToLimit := by
  induction p with
  | done value => simp [hitsLimit, notes] at h
  | act action rest ih =>
      cases action with
      | note n =>
          cases hn : n.isLimit with
          | true => simp [sightsToLimit, hn]
          | false =>
              have hrest : (rest ()).hitsLimit = true := by
                simpa [hitsLimit, notes, hn] using h
              simpa [sightsToLimit, hn] using ih () hrest
      | print chunk => exact congrArg (Sight.chunk chunk :: ·) (ih () h)
      | _ => exact ih () h
  | check resume ih => exact congrArg (Sight.check :: ·) (ih false h)

theorem sightsToLimit_bind {p : Routine α} (h : p.hitsLimit = false) (next : α → Routine β) :
    (p.bind next).sightsToLimit = p.sights ++ (next p.outcome).sightsToLimit := by
  induction p with
  | done value => rfl
  | act action rest ih =>
      cases action with
      | note n =>
          obtain ⟨hn, hrest⟩ : n.isLimit = false ∧ (rest ()).hitsLimit = false := by
            simpa [hitsLimit, notes] using h
          simpa [sightsToLimit, sights, outcome, hn] using ih () hrest
      | print chunk => exact congrArg (Sight.chunk chunk :: ·) (ih () h)
      | _ => exact ih () h
  | check resume ih => exact congrArg (Sight.check :: ·) (ih false h)

theorem sightsToLimit_of_not_hit {p : Routine α} (h : p.hitsLimit = false) :
    p.sightsToLimit = p.sights := by
  have hdone := sightsToLimit_bind h Routine.done
  simpa [sightsToLimit] using hdone

theorem sightsToLimit_isPrefix (p : Routine α) : p.sightsToLimit <+: p.sights := by
  induction p with
  | done value => exact List.prefix_rfl
  | act action rest ih =>
      cases action with
      | note n =>
          unfold sightsToLimit
          split
          · exact List.nil_prefix
          · exact ih ()
      | print chunk => exact List.cons_prefix_cons.mpr ⟨rfl, ih ()⟩
      | _ => exact ih ()
  | check resume ih => exact List.cons_prefix_cons.mpr ⟨rfl, ih false⟩

theorem Settles.sights {value : α} {p : Routine α} (h : p.Settles value) :
    p.sights = [] ∧ p.outcome = value := by
  have hlive := h.live (fun _ => false) []
  rw [live_never] at hlive
  exact ⟨congrArg Prod.fst hlive, congrArg Prod.snd hlive⟩

end Routine

/-! ### Agreement up to a limit -/

/-- What is seen of a routine up to its first limit is the beginning of what is seen of another.
If it hits none, and does not end in a value that is going to be noted as one, the two show the
same and have the same outcome. -/
structure AgreesToLimit {α : Type} (stopped : α → Prop) (p q : Routine α) : Prop where
  front : p.sightsToLimit <+: q.sights
  whole : p.hitsLimit = false → ¬stopped p.outcome → q.sights = p.sights ∧ q.outcome = p.outcome

namespace AgreesToLimit

variable {α β : Type} {stopped : α → Prop} {stopped' : β → Prop} {p q : Routine α}

theorem refl (p : Routine α) : AgreesToLimit stopped p p :=
  ⟨p.sightsToLimit_isPrefix, fun _ _ => ⟨rfl, rfl⟩⟩

/-- Routines that agree, followed by routines that do. A value that stands for a limit must be
followed by nothing to see in front of the note. -/
theorem bind (h : AgreesToLimit stopped p q) {next next' : α → Routine β}
    (stop : ∀ a, stopped a → (next a).sightsToLimit = [] ∧
      ((next a).hitsLimit = true ∨ stopped' (next a).outcome))
    (go : ∀ a, p.Gives a → ¬stopped a → AgreesToLimit stopped' (next a) (next' a)) :
    AgreesToLimit stopped' (p.bind next) (q.bind next') := by
  cases hhit : p.hitsLimit with
  | true =>
      -- what follows the first routine is hidden behind its limit, whatever it is
      constructor
      · rw [sightsToLimit_bind_of_hit hhit, sights_bind]
        exact h.front.trans (List.prefix_append _ _)
      · intro hnot
        simp [hitsLimit_bind, hhit] at hnot
  | false =>
      have hfront : (p.bind next).sightsToLimit = p.sights ++ (next p.outcome).sightsToLimit :=
        sightsToLimit_bind hhit next
      by_cases hstopped : stopped p.outcome
      · -- the limit is still to be noted, and `next` shows nothing in front of the note
        obtain ⟨hnothing, hends⟩ := stop _ hstopped
        constructor
        · rw [hfront, hnothing, List.append_nil, ← sightsToLimit_of_not_hit hhit, sights_bind]
          exact h.front.trans (List.prefix_append _ _)
        · intro hnot hgoes
          rw [hitsLimit_bind, hhit, Bool.false_or] at hnot
          rw [outcome_bind] at hgoes
          cases hends with
          | inl hhits => simp [hhits] at hnot
          | inr hstops => exact absurd hstops hgoes
      · obtain ⟨hsights, houtcome⟩ := h.whole hhit hstopped
        have hnext := go _ (gives_outcome p) hstopped
        constructor
        · rw [hfront, sights_bind, hsights, houtcome]
          exact (List.prefix_append_right_inj _).mpr hnext.front
        · intro hnot hgoes
          rw [hitsLimit_bind, hhit, Bool.false_or] at hnot
          rw [outcome_bind] at hgoes
          obtain ⟨hs, ho⟩ := hnext.whole hnot hgoes
          simp only [sights_bind, outcome_bind, hsights, houtcome, hs, ho, and_self]

/-- The same routine in front of routines that agree. -/
theorem behind (p : Routine α) {next next' : α → Routine β}
    (h : ∀ a, AgreesToLimit stopped' (next a) (next' a)) :
    AgreesToLimit stopped' (p.bind next) (p.bind next') := by
  have hself : AgreesToLimit (fun _ => False) p p := .refl p
  exact hself.bind (fun _ hnever => hnever.elim) fun a _ _ => h a

end AgreesToLimit

/-- A value that says that calls nest too deep. -/
def IsTooDeep {α : Type} [Abortable α] (a : α) : Prop :=
  ∃ function depth, abort? a = some (.tooDeep function depth)

theorem agreesToLimit_congruence : Congruence fun p q => AgreesToLimit IsTooDeep p q where
  done := by
    intro α _ a _
    exact .refl _
  act := by
    intro α _ action rest rest' h
    exact .behind (Routine.perform action) fun _ => h
  yield := by
    intro α _ lost _ next next' h
    refine .behind yieldPoint fun cancelled => ?_
    split
    · exact .refl _
    · exact h
  bind := by
    intro α β _ _ p q next next' h stop go
    apply h.bind
    · rintro a ⟨function, depth, ha⟩
      obtain ⟨b, hb, hsettles, -⟩ := stop a _ ha
      obtain ⟨hsights, houtcome⟩ := hsettles.sights
      refine ⟨List.prefix_nil.mp (hsights ▸ sightsToLimit_isPrefix _), Or.inr ?_⟩
      exact ⟨function, depth, by rw [houtcome, hb]⟩
    · intro a hgives hgoes
      cases ha : abort? a with
      | none => exact go a hgives ha
      | some cause =>
          obtain ⟨b, -, -, hsame⟩ := stop a cause ha
          rw [hsame]
          exact .refl _

/-! ### Calls and runs -/

/-- A call under limits, beside the same call under limits that are no less. -/
theorem activate_agreesToLimit (functions : Table Function) {options options' : Options}
    (h : options.maxIterations ≤ options'.maxIterations) {left left' : Nat} (hleft : left ≤ left')
    (f : Function) (args : List Number) :
    AgreesToLimit IsTooDeep (activate functions options left f args)
      (activate functions options' left' f args) := by
  induction left generalizing left' f args with
  | zero =>
      -- nests too deep at once, so nothing is asked of the other call
      refine ⟨List.nil_prefix, fun _ hgoes => absurd ?_ hgoes⟩
      exact ⟨f.name, options.maxDepth.toNat, rfl⟩
  | succ left ih =>
      obtain ⟨more, rfl⟩ : ∃ more, left' = more + 1 := ⟨left' - 1, by omega⟩
      have hsimulates : Simulates (fun p q => AgreesToLimit IsTooDeep p q)
          (envWithin functions options left) (envWithin functions options' more) :=
        { agreesToLimit_congruence with
          functions := rfl
          limit := Int.toNat_le_toNat h
          call := ih (Nat.le_of_succ_le_succ hleft)
          runaway := fun src scope other _ => ⟨List.nil_prefix, fun hnot => by cases hnot⟩ }
      exact activateIn_related hsimulates f args

/-- What is concluded from calls that nest too deep is noted before it is said. -/
theorem conclude_tooDeep (name function : String) (depth : Nat) :
    (conclude name (.error (.abort (.tooDeep function depth)))).sightsToLimit = [] ∧
      (conclude name (.error (.abort (.tooDeep function depth)))).hitsLimit = true :=
  ⟨rfl, rfl⟩

theorem call_agreesToLimit (p : Program) {options options' : Options}
    (hloops : options.maxIterations ≤ options'.maxIterations)
    (hdepth : options.maxDepth ≤ options'.maxDepth) (name : String) (args : List Number) :
    AgreesToLimit IsTooDeep (p.call options name args) (p.call options' name args) := by
  unfold Program.call
  split
  · exact .refl _
  · rename_i f _
    exact agreesToLimit_congruence.unlessAborted
      (activate_agreesToLimit p.functions hloops (Int.toNat_le_toNat hdepth) f args)
      (fun cause => .error (.abort cause)) (fun _ => rfl) (fun _ => rfl) (fun _ => rfl)
      fun a => .refl _

theorem runProgram_agreesToLimit (name : String) (p : Program) {options options' : Options}
    (hloops : options.maxIterations ≤ options'.maxIterations)
    (hdepth : options.maxDepth ≤ options'.maxDepth) :
    AgreesToLimit (fun _ => False) (runProgram name p options) (runProgram name p options') := by
  refine .behind (recordAll p.notes) fun _ => ?_
  split
  · refine .behind (Routine.record (.running name p.functions.length)) fun _ => ?_
    apply (call_agreesToLimit p hloops hdepth "main" []).bind
    · rintro (stop | a) ⟨function, depth, hdeep⟩
      · cases stop with
        | mistake cause => cases hdeep
        | abort cause =>
            cases hdeep
            obtain ⟨hnothing, hhits⟩ := conclude_tooDeep name function depth
            exact ⟨hnothing, Or.inl hhits⟩
      · cases hdeep
    · intro result _ _
      exact .refl _
  · exact .refl _

/-- The notes that are watched are those of the routine. -/
theorem Routine.watch_notes {α : Type} (p : Routine α) (t : Trace) (ht : t.cancelled = false) :
    (p.watch {} t).1.notes.toList = t.notes.toList ++ p.notes := by
  induction p generalizing t with
  | done value => simp [watch, notes]
  | act action rest ih =>
      have hnext := ih () (t.after {} action) ((after_cancelled rfl action t).trans ht)
      refine hnext.trans ?_
      cases action <;> simp [Trace.after, Trace.weigh, notes]
  | check resume ih =>
      have hanswer : (t.afterCheck {}).cancelled = false := by
        simp [Trace.afterCheck, ht]
      simp only [watch, hanswer]
      exact ih false _ hanswer

theorem Routine.hitsLimit_iff {α : Type} (p : Routine α) :
    p.hitsLimit = true ↔ ∃ n ∈ (p.observe {}).1.notes.toList, n.isLimit = true := by
  have hnotes := p.watch_notes (Trace.start {}) rfl
  rw [observe, hnotes]
  simp [hitsLimit, Trace.start, Trace.weigh]

/-- A run of a program that is never cancelled, beside one under limits that are no less. Where the
first hits no limit the two cannot be told apart. In any case what is seen of the first before a
limit is hit, chunks and checks in one order, is the beginning of what is seen of the second. -/
theorem observe_higherLimits (name : String) (p : Program) {options options' : Options}
    (hloops : options.maxIterations ≤ options'.maxIterations)
    (hdepth : options.maxDepth ≤ options'.maxDepth) :
    let lower := (runProgram name p options).observe {}
    let higher := (runProgram name p options').observe {}
    ((∀ n ∈ lower.1.notes.toList, n.isLimit = false) →
      higher.1.chunks = lower.1.chunks ∧ higher.1.checks = lower.1.checks ∧
        higher.2 = lower.2) ∧
    (runProgram name p options).sightsToLimit <+: (runProgram name p options').sights := by
  have hagrees := runProgram_agreesToLimit name p hloops hdepth
  refine ⟨fun hnotes => ?_, hagrees.front⟩
  have hnot : (runProgram name p options).hitsLimit = false := by
    rw [Bool.eq_false_iff, ne_eq, Routine.hitsLimit_iff]
    rintro ⟨n, hn, hlimit⟩
    simp [hnotes n hn] at hlimit
  obtain ⟨hsights, houtcome⟩ := hagrees.whole hnot id
  obtain ⟨⟨hchunks, hchecks⟩, hresult⟩ := observe_uncancelled (runProgram name p options)
  obtain ⟨⟨hchunks', hchecks'⟩, hresult'⟩ := observe_uncancelled (runProgram name p options')
  refine ⟨Array.toList_inj.mp ?_, ?_, ?_⟩
  · rw [hchunks, hchunks', hsights]
  · rw [hchecks, hchecks', hsights]
  · rw [hresult, hresult', houtcome]

/-- A program that counts to three, printing every number. -/
def Program.counting : Program :=
  let i : Expr := .name {} "i"
  let three : Expr := .literal {} (.number 3)
  { lines := []
    functions :=
      [("main",
        { signature := ⟨"int", "main", []⟩
          lines := []
          body :=
            [.simple ⟨"int i;", .declares "int" [⟨"i", none⟩]⟩,
              .whileLoop "while (i < 3)" (.binary {} (.compare .lt) i three)
                [.simple ⟨"i++;", .assigns "i" .increment⟩,
                  .simple ⟨"printf(\"%d\", i);", .prints "%d" [i]⟩]] })] }

/-- A loop may repeat exactly as often as its limit says, so three repetitions are enough here. -/
theorem observe_higherLimits_counting :
    let lower := (runProgram "a.out" .counting ⟨3, 1⟩).observe {}
    let higher := (runProgram "a.out" .counting ⟨1000, 64⟩).observe {}
    ((3 : Int) ≤ 1000 ∧ (1 : Int) ≤ 64 ∧ (∀ n ∈ lower.1.notes.toList, n.isLimit = false) ∧
      lower.1.checks = 22) ∧
    higher.1.chunks = lower.1.chunks ∧ higher.1.checks = lower.1.checks ∧
      higher.2 = lower.2 := by
  intro lower higher
  have hnotes : ∀ n ∈ lower.1.notes.toList, n.isLimit = false := by decide +kernel
  obtain ⟨hsame, -⟩ :=
    @observe_higherLimits "a.out" .counting ⟨3, 1⟩ ⟨1000, 64⟩ (by decide) (by decide)
  exact ⟨⟨by decide, by decide, hnotes, by decide +kernel⟩, hsame hnotes⟩

end ToyC
