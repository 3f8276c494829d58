import ToyC.Proofs.Run.Sight

/-!
Living through a routine to its end. Whether a check finds the routine cancelled may
depend in any way on what has been seen of the routine until then, so every
schedule of cancellation is covered. The plans of the watching module are such
schedules, and a routine that is never cancelled shows its sights.
-/

namespace ToyC

/-- The schedule that a plan describes: whether the routine is cancelled at a check with so much
seen before. -/
def Plan.cancels (plan : Plan) (seen : List Sight) : Bool :=
  plan.afterChunks.any (· ≤ ((Sight.chunks seen).length : Int)) ||
    plan.atCheck.any fun k => 0 ≤ k && k ≤ (Sight.checks seen : Int)

theorem Plan.cancels_iff (plan : Plan) (seen : List Sight) : plan.cancels seen = true ↔
    (∃ n ∈ plan.afterChunks, n ≤ ((Sight.chunks seen).length : Int)) ∨
      ∃ k ∈ plan.atCheck, 0 ≤ k ∧ k ≤ (Sight.checks seen : Int) := by
  simp [Plan.cancels, Option.any_eq_true]

theorem Plan.cancels_cancelAt (k : Nat) (seen : List Sight) :
    (Plan.cancelAt k).cancels seen = true ↔ k ≤ Sight.checks seen := by
  simp [Plan.cancels_iff, Plan.cancelAt]

namespace Sight

@[simp] theorem chunks_append (front back : List Sight) :
    chunks (front ++ back) = chunks front ++ chunks back := by
  simp [chunks]

@[simp] theorem checks_append (front back : List Sight) :
    checks (front ++ back) = checks front + checks back := by
  simp [checks]

theorem checks_le_of_prefix {front sights : List Sight} (h : front <+: sights) :
    checks front ≤ checks sights := by
  obtain ⟨back, rfl⟩ := h
  simp

end Sight

namespace Routine

variable {α β : Type}

/-- What has been seen when a routine ends, and its value. -/
def live (cancels : List Sight → Bool) : Routine α → List Sight → List Sight × α
  | .done value, seen => (seen, value)
  | .act (.print chunk) rest, seen => (rest ()).live cancels (seen ++ [.chunk chunk])
  | .act _ rest, seen => (rest ()).live cancels seen
  | .check resume, seen => (resume (cancels seen)).live cancels (seen ++ [.check])

variable {cancels : List Sight → Bool}

@[simp] theorem live_done (value : α) (seen : List Sight) :
    (Routine.done value).live cancels seen = (seen, value) := rfl

@[simp] theorem live_check (resume : Bool → Routine α) (seen : List Sight) :
    (Routine.check resume).live cancels seen =
      (resume (cancels seen)).live cancels (seen ++ [.check]) := rfl

theorem live_bind (p : Routine α) (next : α → Routine β) (seen : List Sight) :
    (p.bind next).live cancels seen =
      (next (p.live cancels seen).2).live cancels (p.live cancels seen).1 := by
  induction p generalizing seen with
  | done value => rfl
  | act action rest ih => cases action <;> exact ih () _
  | check resume ih => exact ih _ _

/-- An action that prints nothing is not seen. -/
theorem live_silent {action : Action} (hsilent : ∀ chunk, action ≠ .print chunk)
    (rest : Unit → Routine α) (seen : List Sight) :
    (Routine.act action rest).live cancels seen = (rest ()).live cancels seen := by
  cases action with
  | print chunk => exact absurd rfl (hsilent chunk)
  | _ => rfl

@[simp] theorem live_record_bind (n : Note) (next : Unit → Routine α) (seen : List Sight) :
    ((Routine.record n).bind next).live cancels seen = (next ()).live cancels seen := rfl

theorem live_emit_bind {text : String} (h : text ≠ "") (next : Unit → Routine α)
    (seen : List Sight) : ((Routine.emit text).bind next).live cancels seen =
      (next ()).live cancels (seen ++ [.chunk text]) := by
  rw [emit, if_neg h]
  rfl

/-- A yield point makes a second check where the first does not find the routine cancelled. -/
theorem live_yieldPoint_bind (next : Bool → Routine α) (seen : List Sight) :
    (yieldPoint.bind next).live cancels seen =
      if cancels seen then (next true).live cancels (seen ++ [.check])
      else (next (cancels (seen ++ [.check]))).live cancels (seen ++ [.check] ++ [.check]) := by
  simp only [yieldPoint, check_bind, live_check]
  split <;> rfl

/-- A routine that is never cancelled shows its sights and gives its outcome. -/
theorem live_never (p : Routine α) (seen : List Sight) :
    p.live (fun _ => false) seen = (seen ++ p.sights, p.outcome) := by
  induction p generalizing seen with
  | done value => simp [live, sights, outcome]
  | act action rest ih => cases action <;> simp [live, sights, outcome, ih]
  | check resume ih => simp [live, sights, outcome, ih]

/-! ### Plans as schedules -/

/-- A trace tells what has been seen, and whether its plan has taken effect. -/
structure Tells (plan : Plan) (t : Trace) (seen : List Sight) : Prop where
  chunks : t.chunks.toList = Sight.chunks seen
  checks : t.checks = Sight.checks seen
  cancelled : t.cancelled = true ↔
    (∃ n ∈ plan.afterChunks, n ≤ ((Sight.chunks seen).length : Int)) ∨
      ∃ k ∈ plan.atCheck, 0 ≤ k ∧ k < (Sight.checks seen : Int)

theorem Tells.start (plan : Plan) : Tells plan (Trace.start plan) [] := by
  refine ⟨rfl, rfl, ?_⟩
  have hnever : ¬∃ k ∈ plan.atCheck, 0 ≤ k ∧ k < ((Sight.checks [] : Nat) : Int) := by
    rintro ⟨k, -, hk⟩
    simp at hk
    omega
  simp only [hnever, or_false]
  simp [Trace.start, Trace.weigh, Option.any_eq_true]

theorem Tells.print {plan : Plan} {t : Trace} {seen : List Sight} (h : Tells plan t seen)
    (chunk : String) : Tells plan (t.after plan (.print chunk)) (seen ++ [.chunk chunk]) := by
  have hsize : t.chunks.size = (Sight.chunks seen).length := by
    rw [← h.chunks, Array.length_toList]
  refine ⟨by simp [Trace.after, Trace.weigh, h.chunks], by
    simp [Trace.after, Trace.weigh, h.checks], ?_⟩
  simp only [Trace.after, Trace.weigh, Bool.or_eq_true, h.cancelled, Option.any_eq_true,
    decide_eq_true_eq, Array.size_push, hsize, Sight.chunks_append, Sight.checks_append,
    Sight.chunks_chunk, Sight.checks_chunk, Sight.chunks_nil, Sight.checks_nil, List.length_append,
    List.length_singleton, Nat.add_zero]
  constructor
  · rintro ((⟨n, hn, hle⟩ | hcheck) | hnow)
    · exact Or.inl ⟨n, hn, by omega⟩
    · exact Or.inr hcheck
    · exact Or.inl hnow
  · rintro (hnow | hcheck)
    · exact Or.inr hnow
    · exact Or.inl (Or.inr hcheck)

theorem Tells.check {plan : Plan} {t : Trace} {seen : List Sight} (h : Tells plan t seen) :
    Tells plan (t.afterCheck plan) (seen ++ [.check]) ∧
      (t.afterCheck plan).cancelled = plan.cancels seen := by
  have hanswer : (t.afterCheck plan).cancelled = true ↔ plan.cancels seen = true := by
    simp only [Trace.afterCheck, Bool.or_eq_true, h.cancelled, Plan.cancels_iff, h.checks,
      decide_eq_true_eq]
    constructor
    · rintro ((hchunks | ⟨k, hk, hlow, hlt⟩) | hnow)
      · exact Or.inl hchunks
      · exact Or.inr ⟨k, hk, hlow, by omega⟩
      · exact Or.inr ⟨_, hnow, by omega, Int.le_refl _⟩
    · rintro (hchunks | ⟨k, hk, hlow, hle⟩)
      · exact Or.inl (Or.inl hchunks)
      · by_cases hnow : k = Sight.checks seen
        · exact Or.inr (hnow ▸ hk)
        · exact Or.inl (Or.inr ⟨k, hk, hlow, by omega⟩)
  refine ⟨⟨by simpa [Trace.afterCheck] using h.chunks, by simp [Trace.afterCheck, h.checks], ?_⟩,
    Bool.eq_iff_iff.mpr hanswer⟩
  rw [hanswer, Plan.cancels_iff]
  simp only [Option.mem_def, Sight.chunks_append, Sight.chunks_check, Sight.chunks_nil,
    List.append_nil, Sight.checks_append, Sight.checks_check, Sight.checks_nil, Nat.zero_add,
    Int.natCast_add, Int.cast_ofNat_Int, Int.lt_add_one_iff]

/-- Watching under a plan is living under its schedule. -/
theorem watch_eq_live {plan : Plan} (p : Routine α) {t : Trace} {seen : List Sight}
    (h : Tells plan t seen) : Tells plan (p.watch plan t).1 (p.live plan.cancels seen).1 ∧
      (p.watch plan t).2 = (p.live plan.cancels seen).2 := by
  induction p generalizing t seen with
  | done value => exact ⟨h, rfl⟩
  | act action rest ih =>
      cases action with
      | print chunk => exact ih () (h.print chunk)
      | _ => exact ih () ⟨h.chunks, h.checks, h.cancelled⟩
  | check resume ih =>
      obtain ⟨hnext, hanswer⟩ := h.check
      simp only [watch, live, hanswer]
      exact ih _ hnext

theorem observe_eq_live (plan : Plan) (p : Routine α) :
    (p.observe plan).1.chunks.toList = Sight.chunks (p.live plan.cancels []).1 ∧
      (p.observe plan).1.checks = Sight.checks (p.live plan.cancels []).1 ∧
      (p.observe plan).2 = (p.live plan.cancels []).2 := by
  obtain ⟨htells, hvalue⟩ := p.watch_eq_live (Tells.start plan)
  exact ⟨htells.chunks, htells.checks, hvalue⟩

end Routine

end ToyC
