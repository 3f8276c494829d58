import ToyC.Run.Routine

/-!
Watching a routine: what it prints, how often it checks for cancellation, what it
notes, and how deep its calls stand. A plan says when the routine is cancelled.
-/

namespace ToyC

/-- When a routine is cancelled: as soon as it has printed so many chunks, at a check of the
given number, counted from zero, or at whichever comes first. -/
structure Plan where
  afterChunks : Option Int := none
  atCheck : Option Int := none
  deriving DecidableEq, Repr

structure Trace where
  chunks : Array String := #[]
  notes : Array Note := #[]
  checks : Nat := 0
  cancelled : Bool := false
  depth : Int := 0

namespace Trace

/-- The trace when chunks count as printed; the plan may cancel by their number. -/
def weigh (plan : Plan) (t : Trace) : Trace :=
  { t with cancelled := t.cancelled || plan.afterChunks.any (· ≤ (t.chunks.size : Int)) }

def start (plan : Plan) : Trace :=
  weigh plan {}

def after (plan : Plan) (action : Action) (t : Trace) : Trace :=
  match action with
  | .print chunk => weigh plan { t with chunks := t.chunks.push chunk }
  | .note n => { t with notes := t.notes.push n }
  | .enter _ => { t with depth := t.depth + 1 }
  | .leave => { t with depth := t.depth - 1 }
  | .pause => t

/-- The trace after a check; whether the routine is cancelled is its answer. -/
def afterCheck (plan : Plan) (t : Trace) : Trace :=
  { t with
    checks := t.checks + 1
    cancelled := t.cancelled || plan.atCheck = some (t.checks : Int) }

end Trace

def Routine.watch {α : Type} (plan : Plan) : Routine α → Trace → Trace × α
  | .done value, t => (t, value)
  | .act action rest, t => (rest ()).watch plan (t.after plan action)
  | .check resume, t =>
    let t := t.afterCheck plan
    (resume t.cancelled).watch plan t

def Routine.observe {α : Type} (plan : Plan) (p : Routine α) : Trace × α :=
  p.watch plan (Trace.start plan)

end ToyC
