import Mathlib.Tactic.Choose
import ToyC.Proofs.Run.Simulation

/-!
Computations with open calls: where a function of the program is called, they stop and
wait for the answer. Whoever fills in the calls gets a routine. A computation is
orderly if it neither enters nor leaves a function and never refuses a call by itself,
if it ends with whatever aborts one of its calls, and if it makes no more than a given
number of calls between two checks.
-/

namespace ToyC

/-- What calling a function comes to. -/
abbrev Calls := Function → List Number → Routine (Except Abort Number)

/-- A computation in which the calls of functions are open. -/
inductive Open (α : Type) where
  | done (value : α)
  | act (action : Action) (rest : Unit → Open α)
  | check (resume : Bool → Open α)
  /-- wait for what a function gives -/
  | call (f : Function) (args : List Number) (resume : Except Abort Number → Open α)

/-- Neither entering nor leaving a function. -/
def Action.IsInner : Action → Prop
  | .enter _ | .leave => False
  | _ => True

namespace Open

variable {α β : Type}

/-- One computation after another. -/
def bind (c : Open α) (next : α → Open β) : Open β :=
  match c with
  | .done value => next value
  | .act action rest => .act action fun u => (rest u).bind next
  | .check resume => .check fun cancelled => (resume cancelled).bind next
  | .call f args resume => .call f args fun answer => (resume answer).bind next

/-- Fill in the calls. -/
def close (calls : Calls) : Open α → Routine α
  | .done value => .done value
  | .act action rest => .act action fun u => (rest u).close calls
  | .check resume => .check fun cancelled => (resume cancelled).close calls
  | .call f args resume => (calls f args).bind fun answer => (resume answer).close calls

theorem close_bind (calls : Calls) (c : Open α) (next : α → Open β) :
    (c.bind next).close calls = (c.close calls).bind fun a => (next a).close calls := by
  induction c with
  | done value => rfl
  | act action rest ih => exact congrArg (Routine.act action) (funext ih)
  | check resume ih => exact congrArg Routine.check (funext ih)
  | call f args resume ih =>
      simp only [bind, close, Routine.bind_assoc]
      exact congrArg _ (funext ih)

/-! ### Order -/

variable [Abortable α] [Abortable β]

/-- A computation is over, and tells that the run is to be aborted. -/
def Stops (cause : Abort) (c : Open α) : Prop :=
  ∃ a, c = .done a ∧ abort? a = some cause

/-- What the interpreter does between its calls, which are calls of known functions, with at most
`first` of them in front of the first check and at most `later` from one check to the next. -/
inductive Orderly (known : Function → Prop) (later : Nat) : Nat → Open α → Prop
  | done {first : Nat} {a : α} (h : ∀ function depth, abort? a ≠ some (.tooDeep function depth)) :
      Orderly known later first (.done a)
  | act {first : Nat} {action : Action} {rest : Unit → Open α} (hinner : action.IsInner)
      (h : Orderly known later first (rest ())) : Orderly known later first (.act action rest)
  | check {first : Nat} {resume : Bool → Open α}
      (h : ∀ cancelled, Orderly known later later (resume cancelled)) :
      Orderly known later first (.check resume)
  | call {first : Nat} {f : Function} {args : List Number} {resume : Except Abort Number → Open α}
      (hknown : known f) (ok : ∀ a, Orderly known later first (resume (.ok a)))
      (error : ∀ cause, Stops cause (resume (.error cause))) :
      Orderly known later (first + 1) (.call f args resume)

variable {known : Function → Prop}

theorem Orderly.mono {later first later' first' : Nat} {c : Open α}
    (h : Orderly known later first c) (hlater : later ≤ later') (hfirst : first ≤ first') :
    Orderly known later' first' c := by
  induction h generalizing first' with
  | done h => exact .done h
  | act hinner _ ih => exact .act hinner (ih hfirst)
  | check _ ih => exact .check fun cancelled => ih cancelled hlater
  | call hknown _ error ih =>
      obtain ⟨less, rfl⟩ : ∃ less, first' = less + 1 := ⟨first' - 1, by omega⟩
      exact .call hknown (fun a => ih a (by omega)) error

/-- More functions may be known. -/
theorem Orderly.imp {known' : Function → Prop} (hknown : ∀ f, known f → known' f)
    {later first : Nat} {c : Open α} (h : Orderly known later first c) :
    Orderly known' later first c := by
  induction h with
  | done h => exact .done h
  | act hinner _ ih => exact .act hinner ih
  | check _ ih => exact .check ih
  | call hf _ error ih => exact .call (hknown _ hf) ih error

/-- What follows an abort does nothing but pass it on, and what follows anything else makes its
calls on top of those that were made since the last check. -/
theorem Orderly.bind {later first later' m : Nat} {c : Open α} {next : α → Open β}
    (h : Orderly known later first c) (hlater : later + m ≤ later')
    (stop : ∀ a cause, abort? a = some cause → Stops cause (next a))
    (go : ∀ a, abort? a = none → Orderly known later' m (next a)) :
    Orderly known later' (first + m) (c.bind next) := by
  induction h with
  | @done first a h =>
      cases ha : abort? a with
      | none => exact (go a ha).mono (Nat.le_refl _) (Nat.le_add_left _ _)
      | some cause =>
          obtain ⟨b, hb, hcause⟩ := stop a cause ha
          simp only [Open.bind, hb]
          refine .done fun function depth hdepth => h function depth ?_
          rw [ha, ← hcause, hdepth]
  | act hinner _ ih => exact .act hinner ih
  | check _ ih =>
      exact .check fun cancelled => (ih cancelled).mono (Nat.le_refl _) hlater
  | @call first f args resume hknown _ error ih =>
      rw [Nat.add_right_comm]
      refine .call hknown ih fun cause => ?_
      obtain ⟨a, ha, hcause⟩ := error cause
      obtain ⟨b, hb, hcause'⟩ := stop a cause hcause
      exact ⟨b, by simp only [ha, Open.bind, hb], hcause'⟩

end Open

/-- Routines that are one orderly computation with different calls filled in. -/
def Opens {α : Type} [Abortable α] (known : Function → Prop) (later first : Nat)
    (family : Calls → Routine α) : Prop :=
  ∃ c : Open α, (∀ calls, c.close calls = family calls) ∧ c.Orderly known later first

namespace Opens

variable {α β : Type} [Abortable α] [Abortable β] {known : Function → Prop}
  {later first : Nat}

theorem mono {n k : Nat} {family : Calls → Routine α} (h : Opens known n k family)
    (hlater : n ≤ later) (hfirst : k ≤ first) : Opens known later first family := by
  obtain ⟨c, hclose, horder⟩ := h
  exact ⟨c, hclose, horder.mono hlater hfirst⟩

theorem done {a : α} (h : ∀ function depth, abort? a ≠ some (.tooDeep function depth)) :
    Opens known later first fun _ => .done a :=
  ⟨.done a, fun _ => rfl, .done h⟩

/-- A value that aborts nothing. -/
theorem pure {a : α} (h : abort? a = none) : Opens known later first fun _ => .done a :=
  done fun function depth hdepth => by simp [h] at hdepth

/-- An abort that is no refusal of a call. -/
theorem fault {a : α} {f : Fault} (h : abort? a = some (.fault f)) :
    Opens known later first fun _ => .done a :=
  done fun function depth hdepth => by simp [h] at hdepth

theorem act (action : Action) (hinner : action.IsInner) {family : Calls → Unit → Routine α}
    (h : Opens known later first fun calls => family calls ()) :
    Opens known later first fun calls => .act action (family calls) := by
  obtain ⟨c, hclose, horder⟩ := h
  exact ⟨.act action fun _ => c, fun calls => congrArg (Routine.act action)
    (funext fun _ => hclose calls), .act hinner horder⟩

theorem record_bind (n : Note) {family : Calls → Unit → Routine α}
    (h : Opens known later first fun calls => family calls ()) :
    Opens known later first fun calls => (Routine.record n).bind (family calls) :=
  act (.note n) trivial h

theorem emit_bind (text : String) {family : Calls → Unit → Routine α}
    (h : Opens known later first fun calls => family calls ()) :
    Opens known later first fun calls => (Routine.emit text).bind (family calls) := by
  unfold Routine.emit
  split
  · exact h
  · exact act (.print text) trivial h

theorem call {f : Function} (hknown : known f) (args : List Number) :
    Opens known later 1 fun calls => calls f args :=
  ⟨.call f args .done, fun calls => Routine.bind_done (calls f args),
    .call hknown (fun _ => .done (by simp [abort?])) fun cause => ⟨_, rfl, rfl⟩⟩

/-- One after another; the calls between two checks may be some of the first and some of the
second. -/
theorem bind {later' m : Nat} {family : Calls → Routine α} {next : Calls → α → Routine β}
    (h : Opens known later first family) (hlater : later + m ≤ later')
    (stop : ∀ a cause, abort? a = some cause →
      ∃ b, abort? b = some cause ∧ ∀ calls, next calls a = .done b)
    (go : ∀ a, abort? a = none → Opens known later' m fun calls => next calls a) :
    Opens known later' (first + m) fun calls => (family calls).bind (next calls) := by
  obtain ⟨c, hclose, horder⟩ := h
  have hnext : ∀ a, ∃ rest : Open β, (∀ calls, rest.close calls = next calls a) ∧
      (∀ cause, abort? a = some cause → rest.Stops cause) ∧
      (abort? a = none → rest.Orderly known later' m) := by
    intro a
    cases ha : abort? a with
    | none =>
        obtain ⟨rest, hrest, horderly⟩ := go a ha
        exact ⟨rest, hrest, by simp, fun _ => horderly⟩
    | some cause =>
        obtain ⟨b, hb, hdone⟩ := stop a cause ha
        refine ⟨.done b, fun calls => (hdone calls).symm, ?_, by simp⟩
        rintro other ⟨⟩
        exact ⟨b, rfl, hb⟩
  choose rest hrest hstop hgo using hnext
  refine ⟨c.bind rest, fun calls => ?_, horder.bind hlater hstop hgo⟩
  rw [Open.close_bind, hclose calls]
  exact congrArg _ (funext fun a => hrest a calls)

/-- One after another, counted by their texts. -/
theorem append {family : Calls → Routine α} {next : Calls → α → Routine β} {n m : Nat}
    (h : Opens known n n family)
    (stop : ∀ a cause, abort? a = some cause →
      ∃ b, abort? b = some cause ∧ ∀ calls, next calls a = .done b)
    (go : ∀ a, abort? a = none → Opens known m m fun calls => next calls a) :
    Opens known (n + m) (n + m) fun calls => (family calls).bind (next calls) :=
  h.bind (Nat.le_refl _) stop fun a ha => (go a ha).mono (Nat.le_add_left _ _) (Nat.le_refl _)

end Opens

end ToyC
