import ToyC.Run.Trace

/-!
What can be seen of a routine from outside: the chunks that it prints and the
checks that it makes, in one order. The sights of a routine are those of the run
that is never cancelled. A routine heeds cancellation if every check that is
answered with yes is followed by nothing but a fixed ending, whatever the routine
was doing; heeding is kept when routines are put one after another.
-/

namespace ToyC

/-- Something that a routine shows of itself. -/
inductive Sight where
  | chunk (text : String)
  | check
  deriving DecidableEq, Repr

namespace Sight

def text? : Sight → Option String
  | .chunk text => some text
  | .check => none

/-- The chunks among sights. -/
def chunks (sights : List Sight) : List String :=
  sights.filterMap text?

/-- The number of checks among sights. -/
def checks (sights : List Sight) : Nat :=
  sights.count .check

@[simp] theorem chunks_nil : chunks [] = [] := rfl

@[simp] theorem chunks_chunk (text : String) (sights : List Sight) :
    chunks (.chunk text :: sights) = text :: chunks sights := rfl

@[simp] theorem chunks_check (sights : List Sight) :
    chunks (.check :: sights) = chunks sights := rfl

@[simp] theorem checks_nil : checks [] = 0 := rfl

@[simp] theorem checks_chunk (text : String) (sights : List Sight) :
    checks (.chunk text :: sights) = checks sights := by
  simp [checks]

@[simp] theorem checks_check (sights : List Sight) :
    checks (.check :: sights) = checks sights + 1 := by
  simp [checks]

/-- The sights in front of a check of the given number, counted from zero. -/
def before : Nat → List Sight → List Sight
  | _, [] => []
  | k, .chunk text :: rest => .chunk text :: before k rest
  | 0, .check :: _ => []
  | k + 1, .check :: rest => .check :: before k rest

end Sight

/-- The plan of a cancellation at the check of the given number. -/
def Plan.cancelAt (k : Nat) : Plan :=
  { atCheck := some (k : Int) }

namespace Routine

variable {α β : Type}

/-- What is seen of a routine that is never cancelled. -/
def sights : Routine α → List Sight
  | .done _ => []
  | .act action rest =>
    match action with
    | .print chunk => .chunk chunk :: (rest ()).sights
    | _ => (rest ()).sights
  | .check resume => .check :: (resume false).sights

/-- The value that a routine gives when it is never cancelled. -/
def outcome : Routine α → α
  | .done value => value
  | .act _ rest => (rest ()).outcome
  | .check resume => (resume false).outcome

theorem outcome_bind (p : Routine α) (next : α → Routine β) :
    (p.bind next).outcome = (next p.outcome).outcome := by
  induction p with
  | done value => rfl
  | act action rest ih => exact ih ()
  | check resume ih => exact ih false

theorem sights_bind (p : Routine α) (next : α → Routine β) :
    (p.bind next).sights = p.sights ++ (next p.outcome).sights := by
  induction p with
  | done value => rfl
  | act action rest ih => cases action <;> simp [sights, outcome, ih ()]
  | check resume ih => simp [sights, outcome, ih false]

/-! ### Watching a routine -/

/-- A trace shows the sights of a routine behind what an earlier trace shows. -/
structure Shows (before after : Trace) (sights : List Sight) : Prop where
  chunks : after.chunks.toList = before.chunks.toList ++ Sight.chunks sights
  checks : after.checks = before.checks + Sight.checks sights

theorem after_checks (plan : Plan) (action : Action) (t : Trace) :
    (t.after plan action).checks = t.checks := by
  cases action <;> rfl

theorem after_cancelled {plan : Plan} (hplan : plan.afterChunks = none) (action : Action)
    (t : Trace) : (t.after plan action).cancelled = t.cancelled := by
  cases action <;> simp [Trace.after, Trace.weigh, hplan]

/-- Watched under a plan that does not come to cancel it, a routine shows its sights and gives its
outcome. -/
theorem watch_uncancelled {plan : Plan} (hplan : plan.afterChunks = none) (p : Routine α)
    (t : Trace) (ht : t.cancelled = false)
    (hlate : ∀ k : Nat, plan.atCheck = some (k : Int) → t.checks + Sight.checks p.sights ≤ k) :
    Shows t (p.watch plan t).1 p.sights ∧ (p.watch plan t).2 = p.outcome := by
  induction p generalizing t with
  | done value => exact ⟨⟨by simp [watch, sights], rfl⟩, rfl⟩
  | act action rest ih =>
      have hcancelled := (after_cancelled hplan action t).trans ht
      have hchecks := after_checks plan action t
      have hsights :
          Sight.checks (Routine.act action rest).sights = Sight.checks (rest ()).sights := by
        cases action <;> simp [sights]
      obtain ⟨⟨hc, hn⟩, hv⟩ := ih () (t.after plan action) hcancelled
        (fun k hk => by rw [hchecks, ← hsights]; exact hlate k hk)
      refine ⟨⟨?_, by rw [hsights, ← hchecks]; exact hn⟩, hv⟩
      refine hc.trans ?_
      cases action <;> simp [sights, Trace.after, Trace.weigh]
  | check resume ih =>
      have hsights : Sight.checks (Routine.check resume).sights =
          Sight.checks (resume false).sights + 1 := by
        simp [sights]
      have hnot : plan.atCheck ≠ some (t.checks : Int) := by
        intro hk
        have := hlate t.checks hk
        omega
      have hanswer : (t.afterCheck plan).cancelled = false := by
        simp [Trace.afterCheck, ht, hnot]
      obtain ⟨⟨hc, hn⟩, hv⟩ := ih false (t.afterCheck plan) hanswer
        (fun k hk => by have := hlate k hk; simp only [Trace.afterCheck]; omega)
      simp only [watch, hanswer]
      refine ⟨⟨?_, ?_⟩, hv⟩
      · rw [hc]
        simp [Trace.afterCheck, sights]
      · rw [hn, hsights]
        simp only [Trace.afterCheck]
        omega

/-! ### Heeding cancellation -/

/-- Some answers to its checks lead a routine to a value. -/
inductive Gives (value : α) : Routine α → Prop
  | done : Gives value (.done value)
  | act {action : Action} {rest : Unit → Routine α} (h : Gives value (rest ())) :
      Gives value (.act action rest)
  | check {resume : Bool → Routine α} (cancelled : Bool) (h : Gives value (resume cancelled)) :
      Gives value (.check resume)

theorem Gives.of_bind {b : β} {p : Routine α} {next : α → Routine β} (h : (p.bind next).Gives b) :
    ∃ a, p.Gives a ∧ (next a).Gives b := by
  induction p with
  | done a => exact ⟨a, .done, h⟩
  | act action rest ih =>
      cases h with
      | act h =>
          obtain ⟨a, hfirst, hnext⟩ := ih () h
          exact ⟨a, .act hfirst, hnext⟩
  | check resume ih =>
      cases h with
      | check cancelled h =>
          obtain ⟨a, hfirst, hnext⟩ := ih cancelled h
          exact ⟨a, .check cancelled hfirst, hnext⟩

/-- A routine makes no check, prints the given chunks, and ends in a value of a kind. -/
inductive Finishes (final : α → Prop) : List String → Routine α → Prop
  | done {value : α} (h : final value) : Finishes final [] (.done value)
  | print {chunk : String} {chunks : List String} {rest : Unit → Routine α}
      (h : Finishes final chunks (rest ())) :
      Finishes final (chunk :: chunks) (.act (.print chunk) rest)
  | silent {action : Action} {chunks : List String} {rest : Unit → Routine α}
      (hsilent : ∀ chunk, action ≠ .print chunk) (h : Finishes final chunks (rest ())) :
      Finishes final chunks (.act action rest)

/-- Behind every check that is answered with yes a routine only prints the last chunks, and ends
in a value of a kind. -/
inductive Heeds (final : α → Prop) (last : List String) : Routine α → Prop
  | done (value : α) : Heeds final last (.done value)
  | act {action : Action} {rest : Unit → Routine α} (h : Heeds final last (rest ())) :
      Heeds final last (.act action rest)
  | check {resume : Bool → Routine α} (stop : Finishes final last (resume true))
      (go : Heeds final last (resume false)) : Heeds final last (.check resume)

theorem Finishes.bind {final : α → Prop} {final' : β → Prop} {first last : List String}
    {p : Routine α} {next : α → Routine β} (h : p.Finishes final first)
    (hnext : ∀ a, final a → (next a).Finishes final' last) :
    (p.bind next).Finishes final' (first ++ last) := by
  induction h with
  | done h => exact hnext _ h
  | print _ ih => exact .print ih
  | silent hsilent _ ih => exact .silent hsilent ih

theorem Finishes.imp {final final' : α → Prop} {chunks : List String} {p : Routine α}
    (h : p.Finishes final chunks) (himp : ∀ a, final a → final' a) : p.Finishes final' chunks := by
  induction h with
  | done hfinal => exact .done (himp _ hfinal)
  | print _ ih => exact .print ih
  | silent hsilent _ ih => exact .silent hsilent ih

/-- A routine that finishes makes no check, so it heeds cancellation. -/
theorem Finishes.heeds {final final' : α → Prop} {chunks last : List String} {p : Routine α}
    (h : p.Finishes final chunks) : p.Heeds final' last := by
  induction h with
  | done _ => exact .done _
  | print _ ih => exact .act ih
  | silent _ _ ih => exact .act ih

/-- A routine that heeds cancellation in front of one that passes the cancelled value on. -/
theorem Heeds.bind {final : α → Prop} {final' : β → Prop} {last : List String} {p : Routine α}
    {next : α → Routine β} (h : p.Heeds final [])
    (stop : ∀ a, final a → (next a).Finishes final' last)
    (go : ∀ a, p.Gives a → (next a).Heeds final' last) : (p.bind next).Heeds final' last := by
  induction h with
  | done value => exact go value .done
  | act _ ih => exact .act (ih fun a hgives => go a (.act hgives))
  | check hstop _ ih =>
      exact .check (hstop.bind stop) (ih fun a hgives => go a (.check false hgives))

/-- What is watched of a routine that finishes: the chunks, and no check. -/
theorem Finishes.watch {final : α → Prop} {chunks : List String} {p : Routine α}
    (h : p.Finishes final chunks) (plan : Plan) (t : Trace) :
    (p.watch plan t).1.chunks.toList = t.chunks.toList ++ chunks ∧
      (p.watch plan t).1.checks = t.checks ∧ final (p.watch plan t).2 := by
  induction h generalizing t with
  | done h => exact ⟨by simp [Routine.watch], rfl, h⟩
  | @print chunk chunks rest _ ih =>
      obtain ⟨hc, hn, hv⟩ := ih (t.after plan (.print chunk))
      refine ⟨?_, hn, hv⟩
      refine hc.trans ?_
      simp [Trace.after, Trace.weigh]
  | @silent action chunks rest hsilent _ ih =>
      obtain ⟨hc, hn, hv⟩ := ih (t.after plan action)
      refine ⟨hc.trans ?_, hn.trans (after_checks plan action t), hv⟩
      cases action with
      | print chunk => exact absurd rfl (hsilent chunk)
      | _ => rfl

/-- A routine that heeds cancellation, cancelled at its check number `k`: what was to be seen
before that check, and the ending. -/
theorem Heeds.watch {final : α → Prop} {last : List String} {p : Routine α}
    (h : p.Heeds final last) {k : Nat} (t : Trace) (ht : t.cancelled = false)
    (hk : t.checks ≤ k) (hmore : k < t.checks + Sight.checks p.sights) :
    (p.watch (.cancelAt k) t).1.chunks.toList =
        t.chunks.toList ++ Sight.chunks (Sight.before (k - t.checks) p.sights) ++ last ∧
      (p.watch (.cancelAt k) t).1.checks = k + 1 ∧ final (p.watch (.cancelAt k) t).2 := by
  induction h generalizing t with
  | done value => simp [sights] at hmore; omega
  | @act action rest _ ih =>
      have hplan : (Plan.cancelAt k).afterChunks = none := rfl
      have hcancelled := (after_cancelled hplan action t).trans ht
      have hchecks := after_checks (.cancelAt k) action t
      have hsights : Sight.checks (Routine.act action rest).sights =
          Sight.checks (rest ()).sights := by
        cases action <;> simp [sights]
      obtain ⟨hc, hn, hv⟩ := ih (t.after (.cancelAt k) action) hcancelled (by rwa [hchecks])
        (by rw [hchecks, ← hsights]; exact hmore)
      refine ⟨hc.trans ?_, hn, hv⟩
      rw [hchecks]
      cases action <;>
        simp [sights, Sight.before, Trace.after, Trace.weigh]
  | @check resume hstop _ ih =>
      by_cases hnow : k = t.checks
      · have hanswer : (t.afterCheck (.cancelAt k)).cancelled = true := by
          simp [Trace.afterCheck, Plan.cancelAt, hnow]
        obtain ⟨hc, hn, hv⟩ := hstop.watch (.cancelAt k) (t.afterCheck (.cancelAt k))
        simp only [Routine.watch, hanswer]
        refine ⟨hc.trans ?_, hn.trans ?_, hv⟩
        · simp [hnow, sights, Sight.before, Trace.afterCheck]
        · simp [hnow, Trace.afterCheck]
      · have hanswer : (t.afterCheck (.cancelAt k)).cancelled = false := by
          have hne : (k : Int) ≠ (t.checks : Int) := by omega
          simp [Trace.afterCheck, Plan.cancelAt, ht, hne]
        have hsights : Sight.checks (Routine.check resume).sights =
            Sight.checks (resume false).sights + 1 := by
          simp [sights]
        have hlater : (t.afterCheck (.cancelAt k)).checks = t.checks + 1 := rfl
        obtain ⟨hc, hn, hv⟩ := ih (t.afterCheck (.cancelAt k)) hanswer (by omega) (by omega)
        simp only [Routine.watch, hanswer]
        refine ⟨hc.trans ?_, hn, hv⟩
        obtain ⟨left, hleft⟩ : ∃ left, k - t.checks = left + 1 := ⟨k - t.checks - 1, by omega⟩
        have hnext : k - (t.checks + 1) = left := by omega
        rw [hlater, hnext, hleft]
        simp [sights, Sight.before, Trace.afterCheck]

theorem Shows.from_start {plan : Plan} {after : Trace} {sights : List Sight}
    (h : Shows (Trace.start plan) after sights) :
    after.chunks.toList = Sight.chunks sights ∧ after.checks = Sight.checks sights :=
  ⟨by simpa [Trace.start, Trace.weigh] using h.chunks,
    by simpa [Trace.start, Trace.weigh] using h.checks⟩

/-- Observed from its start and never cancelled, a routine shows its sights. -/
theorem observe_uncancelled (p : Routine α) :
    ((p.observe {}).1.chunks.toList = Sight.chunks p.sights ∧
      (p.observe {}).1.checks = Sight.checks p.sights) ∧ (p.observe {}).2 = p.outcome := by
  have hplan : Plan.afterChunks {} = none := rfl
  obtain ⟨hshows, hvalue⟩ :=
    watch_uncancelled hplan p (Trace.start {}) rfl (fun k hk => by cases hk)
  exact ⟨hshows.from_start, hvalue⟩

/-- A check that a routine does not come to make cannot cancel it. -/
theorem observe_cancelAt_late (p : Routine α) {k : Nat} (hk : Sight.checks p.sights ≤ k) :
    (p.observe (.cancelAt k)).1.chunks = (p.observe {}).1.chunks ∧
      (p.observe (.cancelAt k)).1.checks = (p.observe {}).1.checks ∧
      (p.observe (.cancelAt k)).2 = (p.observe {}).2 := by
  have hlate : ∀ j : Nat, (Plan.cancelAt k).atCheck = some (j : Int) →
      (Trace.start (.cancelAt k)).checks + Sight.checks p.sights ≤ j := by
    intro j hj
    have hjk : (k : Int) = j := Option.some.inj hj
    have hstart : (Trace.start (.cancelAt k)).checks = 0 := rfl
    omega
  have hplan : (Plan.cancelAt k).afterChunks = none := rfl
  obtain ⟨hshows, hvalue⟩ := watch_uncancelled hplan p (Trace.start (.cancelAt k)) rfl hlate
  obtain ⟨hchunks, hchecks⟩ := hshows.from_start
  obtain ⟨⟨hc, hn⟩, hv⟩ := observe_uncancelled p
  exact ⟨Array.toList_inj.mp (hchunks.trans hc.symm), hchecks.trans hn.symm, hvalue.trans hv.symm⟩

/-- A routine that heeds cancellation, cancelled at its check number `k`, beside the same routine
never cancelled: up to the check they show the same, and without the check they are the same. -/
theorem Heeds.observe_cancelled {final : α → Prop} {last : List String} {p : Routine α}
    (h : p.Heeds final last) (k : Nat) :
    (k < (p.observe {}).1.checks →
      (p.observe (.cancelAt k)).1.chunks.toList =
          Sight.chunks (Sight.before k p.sights) ++ last ∧
        (p.observe (.cancelAt k)).1.checks = k + 1 ∧ final (p.observe (.cancelAt k)).2) ∧
    ((p.observe {}).1.checks ≤ k →
      (p.observe (.cancelAt k)).1.chunks = (p.observe {}).1.chunks ∧
        (p.observe (.cancelAt k)).1.checks = (p.observe {}).1.checks ∧
        (p.observe (.cancelAt k)).2 = (p.observe {}).2) := by
  obtain ⟨⟨_, hchecks⟩, _⟩ := observe_uncancelled p
  rw [hchecks]
  constructor
  · intro hk
    have hstart : (Trace.start (.cancelAt k)).checks = 0 := rfl
    have hempty : (Trace.start (.cancelAt k)).chunks.toList = [] := rfl
    obtain ⟨hc, hn, hv⟩ := h.watch (Trace.start (.cancelAt k)) rfl (Nat.zero_le k) (by omega)
    rw [hstart, hempty, List.nil_append, Nat.sub_zero] at hc
    exact ⟨hc, hn, hv⟩
  · intro hk
    rw [← hchecks]
    exact observe_cancelAt_late p hk

end Routine

end ToyC
