import ToyC.Run.Note

/-!
Routines: computations that can be watched, stopped and resumed. A routine either
is done, or acts and goes on, or checks whether it has been cancelled and goes on
according to the answer. It is a well-founded tree, so every routine ends whatever
its checks are answered.
-/

namespace ToyC

inductive Action where
  /-- give a text to the sink -/
  | print (chunk : String)
  | note (n : Note)
  /-- a function is entered -/
  | enter (function : String)
  /-- the function entered last is left -/
  | leave
  /-- let other routines take a turn -/
  | pause

inductive Routine (α : Type) where
  | done (value : α)
  | act (action : Action) (rest : Unit → Routine α)
  /-- ask whether the routine has been cancelled -/
  | check (resume : Bool → Routine α)

namespace Routine

variable {α β γ : Type}

def bind (p : Routine α) (next : α → Routine β) : Routine β :=
  match p with
  | .done value => next value
  | .act action rest => .act action fun u => (rest u).bind next
  | .check resume => .check fun cancelled => (resume cancelled).bind next

instance : Monad Routine where
  pure := .done
  bind := Routine.bind

@[simp] theorem pure_eq (value : α) : (pure value : Routine α) = .done value := rfl

@[simp] theorem bind_eq (p : Routine α) (next : α → Routine β) : p >>= next = p.bind next := rfl

@[simp] theorem done_bind (value : α) (next : α → Routine β) :
    (Routine.done value).bind next = next value := rfl

@[simp] theorem act_bind (action : Action) (rest : Unit → Routine α) (next : α → Routine β) :
    (Routine.act action rest).bind next = .act action fun u => (rest u).bind next := rfl

@[simp] theorem check_bind (resume : Bool → Routine α) (next : α → Routine β) :
    (Routine.check resume).bind next = .check fun c => (resume c).bind next := rfl

@[simp] theorem bind_done (p : Routine α) : p.bind .done = p := by
  induction p with
  | done => rfl
  | act action rest ih => exact congrArg (Routine.act action) (funext ih)
  | check resume ih => exact congrArg Routine.check (funext ih)

theorem bind_assoc (p : Routine α) (f : α → Routine β) (g : β → Routine γ) :
    (p.bind f).bind g = p.bind fun a => (f a).bind g := by
  induction p with
  | done => rfl
  | act action rest ih => exact congrArg (Routine.act action) (funext ih)
  | check resume ih => exact congrArg Routine.check (funext ih)

instance : LawfulMonad Routine :=
  LawfulMonad.mk' Routine bind_done (fun _ _ => rfl) bind_assoc

def perform (action : Action) : Routine Unit :=
  .act action fun _ => .done ()

/-- Give a text to the sink; nothing is given where there is no text. -/
def emit (text : String) : Routine Unit :=
  if text = "" then .done () else perform (.print text)

def record (n : Note) : Routine Unit :=
  perform (.note n)

/-- A point where a routine can be stopped: one check, a turn for the others, and one more check.
Whether it has been cancelled. -/
def yieldPoint : Routine Bool :=
  .check fun cancelled =>
    if cancelled then .done true
    else .act .pause fun _ => .check fun cancelled => .done cancelled

/-- A bound for the length of every path through a routine. -/
def height : Routine α → Nat
  | .done _ => 0
  | .act _ rest => (rest ()).height + 1
  | .check resume => max (resume true).height (resume false).height + 1

theorem height_resume_le (resume : Bool → Routine α) (cancelled : Bool) :
    (resume cancelled).height < (Routine.check resume).height := by
  cases cancelled <;> simp only [height] <;> omega

end Routine

end ToyC
