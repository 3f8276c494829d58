import ToyC.Run.Routine

/-!
Several routines that share one thread. They take turns in a circle; a turn lasts
from one pause to the next. Every chunk that any of them prints is one event, and
a routine can be cancelled by the count of all events.
-/

namespace ToyC

structure Event where
  source : Nat
  chunk : String
  deriving DecidableEq, Repr

/-- A routine that waits for its turn. It counts as cancelled once so many events have been seen,
but not before the first. -/
structure Task (α : Type) where
  source : Nat
  cancelAfter : Option Int
  routine : Routine α

def cancelledBy (cancelAfter : Option Int) (events : Nat) : Bool :=
  decide (0 < events) && cancelAfter.any (· ≤ (events : Int))

/-- One turn: up to the next pause, or to the end. -/
def turn {α : Type} (source : Nat) (cancelAfter : Option Int) :
    Routine α → Array Event → (α ⊕ Routine α) × Array Event
  | .done value, events => (.inl value, events)
  | .act .pause rest, events => (.inr (rest ()), events)
  | .act (.print chunk) rest, events =>
    turn source cancelAfter (rest ()) (events.push { source, chunk })
  | .act _ rest, events => turn source cancelAfter (rest ()) events
  | .check resume, events =>
    turn source cancelAfter (resume (cancelledBy cancelAfter events.size)) events

/-- What is left after a turn is shorter than the routine was. -/
theorem turn_height_lt {α : Type} {source : Nat} {cancelAfter : Option Int} {p q : Routine α}
    {before after : Array Event} (h : turn source cancelAfter p before = (.inr q, after)) :
    q.height < p.height := by
  fun_induction turn source cancelAfter p before with
  | case1 => cases h
  | case2 => cases h; exact Nat.lt_succ_self _
  | case3 _ _ _ ih => exact Nat.lt_succ_of_lt (ih h)
  | case4 _ _ _ _ _ ih => exact Nat.lt_succ_of_lt (ih h)
  | case5 resume _ ih => exact Nat.lt_trans (ih h) (Routine.height_resume_le resume _)

def remaining {α : Type} : (tasks : List (Task α)) → Nat
  | [] => 0
  | task :: tasks => task.routine.height + 1 + remaining tasks

theorem remaining_concat {α : Type} (tasks : List (Task α)) (task : Task α) :
    remaining (tasks ++ [task]) = remaining tasks + (task.routine.height + 1) := by
  induction tasks with
  | nil => exact Nat.add_comm _ _
  | cons first rest ih => simp only [List.cons_append, remaining, ih, Nat.add_assoc]

/-- Give turns in a circle until every task has ended: the results in the order in which tasks
ended, with their numbers, and all events. -/
def takeTurns {α : Type} (tasks : List (Task α)) (results : List (Nat × α))
    (events : Array Event) : List (Nat × α) × Array Event :=
  match tasks with
  | [] => (results, events)
  | task :: waiting =>
    match _h : turn task.source task.cancelAfter task.routine events with
    | (.inl value, events) => takeTurns waiting (results ++ [(task.source, value)]) events
    | (.inr routine, events) => takeTurns (waiting ++ [{ task with routine }]) results events
termination_by remaining tasks
decreasing_by
  · simp only [remaining]
    omega
  · have := turn_height_lt _h
    simp only [remaining_concat, remaining]
    omega

/-- Run routines side by side: the result of each, and all events. A routine is numbered by its
place. -/
def runTogether {α : Type} (routines : List (Routine α × Option Int)) :
    List (Option α) × Array Event :=
  let tasks := routines.zipIdx.map fun ((routine, cancelAfter), source) =>
    { source, cancelAfter, routine : Task α }
  let (results, events) := takeTurns tasks [] #[]
  (routines.zipIdx.map fun (_, source) => (results.find? (·.1 = source)).map (·.2), events)

end ToyC
