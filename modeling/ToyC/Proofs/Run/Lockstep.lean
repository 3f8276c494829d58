import ToyC.Proofs.Run.Live

/-!
Routines in lockstep. Two routines that act alike and ask alike, whatever they are
answered, may still give different values; a relation says how these belong
together. Lockstep is kept when routines are put one after another, and nothing
that is seen tells such routines apart.
-/

namespace ToyC.Routine

variable {α α' β β' : Type}

/-- Two routines that take the same actions and make the same checks, and end in related values. -/
inductive Lockstep (R : α → β → Prop) : Routine α → Routine β → Prop
  | done {a : α} {b : β} (h : R a b) : Lockstep R (.done a) (.done b)
  | act (action : Action) {rest : Unit → Routine α} {rest' : Unit → Routine β}
      (h : Lockstep R (rest ()) (rest' ())) : Lockstep R (.act action rest) (.act action rest')
  | check {resume : Bool → Routine α} {resume' : Bool → Routine β}
      (h : ∀ cancelled, Lockstep R (resume cancelled) (resume' cancelled)) :
      Lockstep R (.check resume) (.check resume')

namespace Lockstep

variable {R : α → β → Prop} {S : α' → β' → Prop} {p : Routine α} {q : Routine β}

theorem imp (h : Lockstep R p q) {R' : α → β → Prop} (himp : ∀ a b, R a b → R' a b) :
    Lockstep R' p q := by
  induction h with
  | done hab => exact .done (himp _ _ hab)
  | act action _ ih => exact .act action ih
  | check _ ih => exact .check ih

theorem bind (h : Lockstep R p q) {next : α → Routine α'} {next' : β → Routine β'}
    (hnext : ∀ a b, R a b → Lockstep S (next a) (next' b)) :
    Lockstep S (p.bind next) (q.bind next') := by
  induction h with
  | done hab => exact hnext _ _ hab
  | act action _ ih => exact .act action ih
  | check _ ih => exact .check ih

/-- What is made of the value on the right at the end. -/
theorem map_right {g : β → β'} {S : α → β' → Prop} (h : Lockstep (fun a b => S a (g b)) p q) :
    Lockstep S p (q.bind fun b => .done (g b)) := by
  have hbind : Lockstep S (p.bind .done) (q.bind fun b => .done (g b)) :=
    h.bind fun _ _ hab => .done hab
  rwa [Routine.bind_done] at hbind

/-- Every routine is in lockstep with itself. -/
theorem refl (p : Routine α) : Lockstep (· = ·) p p := by
  induction p with
  | done a => exact .done rfl
  | act action rest ih => exact .act action (ih ())
  | check resume ih => exact .check ih

/-- The same routine in front. -/
theorem behind (p : Routine α) {next : α → Routine α'} {next' : α → Routine β'}
    (h : ∀ a, Lockstep S (next a) (next' a)) : Lockstep S (p.bind next) (p.bind next') :=
  (refl p).bind fun a _ hab => hab ▸ h a

/-- However they are cancelled, routines in lockstep show the same. -/
theorem live (h : Lockstep R p q) (cancels : List Sight → Bool) (seen : List Sight) :
    (p.live cancels seen).1 = (q.live cancels seen).1 ∧
      R (p.live cancels seen).2 (q.live cancels seen).2 := by
  induction h generalizing seen with
  | done hab => exact ⟨rfl, hab⟩
  | act action _ ih => cases action <;> exact ih _
  | check _ ih => exact ih _ _

end Lockstep

end ToyC.Routine
