import Mathlib.Logic.Function.Iterate
import ToyC.Proofs.Run.OpenCalls

/-!
Activations of functions. An interpreter at work is a computation with open calls in the
innermost function, the activations that are in progress, and the trace with its counter
of calls. A call is attempted by looking at the counter: it is refused, or the counter
goes up and the body of the function becomes what is to be done next; where a body is
over, in whatever way, the counter goes down and the caller goes on.

The main statement is that the counter is the number of activations in progress and
stays within the limit, that a call is refused exactly where the limit is reached, and
that what is asked of the interpreter ends with the counter that it started from and
with the result of the interpreter that is run. A run is cancelled at one of its checks
or at none, and a plan can name each of them; an abort from outside, by a host that
gives up while the interpreter prints or waits, may come at any step.
-/

namespace ToyC

/-- An orderly computation, whatever functions it calls. -/
def Open.IsOrderly {α : Type} [Abortable α] (c : Open α) : Prop :=
  ∃ later first, c.Orderly (fun _ => True) later first

namespace Opens

variable {α : Type} [Abortable α] {known : Function → Prop} {later first : Nat}
  {family : Calls → Routine α}

/-- The computation that routines are, with their calls left open. -/
noncomputable def computation (h : Opens known later first family) : Open α :=
  Classical.choose h

theorem close_computation (h : Opens known later first family) (calls : Calls) :
    h.computation.close calls = family calls :=
  (Classical.choose_spec h).1 calls

theorem computation_isOrderly (h : Opens known later first family) : h.computation.IsOrderly :=
  ⟨later, first, (Classical.choose_spec h).2.imp fun _ _ => trivial⟩

end Opens

/-- A function that has been entered and not been left, and how its caller goes on. -/
structure Activation where
  function : String
  resume : Except Abort Number → Open (Except Abort Number)

/-- Behind a call the computation of the caller goes on in order. -/
def Activation.Orderly (a : Activation) : Prop :=
  (∀ value, (a.resume (.ok value)).IsOrderly) ∧
    ∀ cause, a.resume (.error cause) = .done (.error cause)

/-- An interpreter at work. The innermost activation comes first. -/
structure Machine where
  active : List Activation
  focus : Open (Except Abort Number)
  trace : Trace

namespace Machine

/-- A call is refused: its answer is an abort. -/
def refuse (m : Machine) (f : Function)
    (resume : Except Abort Number → Open (Except Abort Number)) : Machine :=
  { m with focus := resume (.error (.tooDeep f.name m.trace.depth.toNat)) }

/-- A function is entered. -/
noncomputable def enter (functions : Table Function) (options : Options) (plan : Plan) (m : Machine)
    (f : Function) (args : List Number)
    (resume : Except Abort Number → Open (Except Abort Number)) : Machine :=
  { active := ⟨f.name, resume⟩ :: m.active
    focus := (@Function.body_opens functions options.maxIterations f args).computation
    trace := m.trace.after plan (.enter f.name) }

/-- One step of an interpreter; there is none where everything is done. -/
noncomputable def step (functions : Table Function) (options : Options) (plan : Plan)
    (m : Machine) : Machine :=
  match m.focus with
  | .act action rest => { m with focus := rest (), trace := m.trace.after plan action }
  | .check resume =>
    let trace := m.trace.afterCheck plan
    { m with focus := resume trace.cancelled, trace }
  | .call f args resume =>
    if options.maxDepth ≤ m.trace.depth then m.refuse f resume
    else m.enter functions options plan f args resume
  | .done result =>
    match m.active with
    | [] => m
    | innermost :: others =>
      { active := others, focus := innermost.resume result, trace := m.trace.after plan .leave }

/-- The interpreter is stopped from outside: whatever was to be done next, the innermost function
ends with an abort. -/
def interrupt (cause : Abort) (m : Machine) : Machine :=
  { m with focus := .done (.error cause) }

/-- A call is attempted where the limit is reached. -/
def Refuses (options : Options) (m : Machine) (function : String) (depth : Nat) : Prop :=
  options.maxDepth ≤ m.active.length ∧ m.active.length = depth ∧
    ∃ f args resume, m.focus = .call f args resume ∧ f.name = function

/-- What an interpreter keeps to: its counter is the number of activations in progress and within
the limit, and what is to be done next, and what is to be done behind a call, neither enters nor
leaves a function by itself. -/
structure Sound (options : Options) (m : Machine) : Prop where
  depth : m.trace.depth = m.active.length
  le : m.trace.depth ≤ max 0 options.maxDepth
  focus : (∃ result, m.focus = .done result) ∨ m.focus.IsOrderly
  callers : ∀ a ∈ m.active, a.Orderly

variable {functions : Table Function} {options : Options} {plan : Plan}

theorem depth_after (plan : Plan) {action : Action} (h : action.IsInner) (t : Trace) :
    (t.after plan action).depth = t.depth := by
  cases action with
  | enter function => cases h
  | leave => cases h
  | _ => rfl

/-- A stopped computation of a number or an abort. -/
theorem eq_of_stops {cause : Abort} {c : Open (Except Abort Number)} (h : c.Stops cause) :
    c = .done (.error cause) := by
  obtain ⟨a, rfl, ha⟩ := h
  cases a with
  | ok value => cases ha
  | error other =>
      cases ha
      rfl

/-- One step keeps the counter at the number of activations in progress, and within the limit. -/
theorem Sound.step {m : Machine} (h : m.Sound options) :
    (m.step functions options plan).Sound options := by
  obtain ⟨active, focus, trace⟩ := m
  obtain ⟨hdepth, hle, hfocus, hcallers⟩ := h
  dsimp only at hdepth hle hfocus hcallers
  cases focus with
  | done result =>
      cases active with
      | nil => exact ⟨hdepth, hle, hfocus, hcallers⟩
      | cons innermost others =>
          have hothers : trace.depth = others.length + 1 := by simpa using hdepth
          obtain ⟨hok, herror⟩ := hcallers innermost List.mem_cons_self
          refine ⟨?_, ?_, ?_, fun a ha => hcallers a (List.mem_cons_of_mem _ ha)⟩
          · simp [Machine.step, Trace.after, hothers]
          · simp only [Machine.step, Trace.after]
            omega
          · cases result with
            | ok value => exact .inr (hok value)
            | error cause => exact .inl ⟨_, herror cause⟩
  | act action rest =>
      obtain ⟨_, hdone⟩ | ⟨later, first, horder⟩ := hfocus
      · cases hdone
      · cases horder with
        | act hinner hrest =>
            have hsame := depth_after plan hinner trace
            exact ⟨hsame.trans hdepth, hsame ▸ hle, .inr ⟨later, first, hrest⟩, hcallers⟩
  | check resume =>
      obtain ⟨_, hdone⟩ | ⟨later, first, horder⟩ := hfocus
      · cases hdone
      · cases horder with
        | check hresume => exact ⟨hdepth, hle, .inr ⟨later, later, hresume _⟩, hcallers⟩
  | call f args resume =>
      obtain ⟨_, hdone⟩ | ⟨later, first, horder⟩ := hfocus
      · cases hdone
      · cases horder with
        | @call first _ _ _ _ hok herror =>
            simp only [Machine.step]
            split
            · exact ⟨hdepth, hle, .inl ⟨_, eq_of_stops (herror _)⟩, hcallers⟩
            · rename_i hroom
              refine ⟨by simp [enter, Trace.after, hdepth], ?_,
                .inr (Opens.computation_isOrderly _), ?_⟩
              · simp only [enter, Trace.after]
                omega
              · intro a ha
                rcases List.mem_cons.mp ha with rfl | hold
                · exact ⟨fun value => ⟨later, first, hok value⟩, fun cause =>
                    eq_of_stops (herror cause)⟩
                · exact hcallers a hold

theorem Sound.iterate {m : Machine} (h : m.Sound options) (n : Nat) :
    ((Machine.step functions options plan)^[n] m).Sound options := by
  induction n with
  | zero => exact h
  | succ n ih =>
      rw [Function.iterate_succ_apply']
      exact ih.step

theorem Sound.interrupt {m : Machine} (h : m.Sound options) (cause : Abort) :
    (m.interrupt cause).Sound options :=
  ⟨h.depth, h.le, .inl ⟨_, rfl⟩, h.callers⟩

/-- An abort takes the activations down one by one, each with its count. -/
theorem Sound.unwind {cause : Abort} {inner outer : List Activation} {trace : Trace}
    (h : Sound options ⟨inner ++ outer, .done (.error cause), trace⟩) :
    ∃ k after, (Machine.step functions options plan)^[k]
        ⟨inner ++ outer, .done (.error cause), trace⟩ = ⟨outer, .done (.error cause), after⟩ ∧
      after.depth = outer.length := by
  induction inner generalizing trace with
  | nil => exact ⟨0, trace, rfl, h.depth⟩
  | cons innermost inner ih =>
      have hstep : Machine.step functions options plan
          ⟨innermost :: inner ++ outer, .done (.error cause), trace⟩ =
          ⟨inner ++ outer, .done (.error cause), trace.after plan .leave⟩ := by
        have herror := (h.callers innermost List.mem_cons_self).2 cause
        simp only [Machine.step, List.cons_append, herror]
      have hsound := @Sound.step functions options plan _ h
      rw [hstep] at hsound
      obtain ⟨k, after, hrun, hdepth⟩ := ih hsound
      refine ⟨k + 1, after, ?_, hdepth⟩
      rw [Function.iterate_succ_apply, hstep, hrun]

/-! ### Coming to an end -/

/-- So many steps lead from one state to another, and whatever was in progress stays so. -/
structure Leads (functions : Table Function) (options : Options) (plan : Plan) (m : Machine)
    (n : Nat) (m' : Machine) : Prop where
  run : (Machine.step functions options plan)^[n] m = m'
  within : ∀ i ≤ n, m.active <:+ ((Machine.step functions options plan)^[i] m).active

variable {m m' m'' : Machine} {n k : Nat}

theorem Leads.refl (m : Machine) : Leads functions options plan m 0 m where
  run := rfl
  within i hi := by
    rw [Nat.le_zero.mp hi]
    exact List.suffix_rfl

theorem Leads.snoc (h : Leads functions options plan m n m')
    (hstep : m'.step functions options plan = m'') (hactive : m.active <:+ m''.active) :
    Leads functions options plan m (n + 1) m'' := by
  have hrun : (Machine.step functions options plan)^[n + 1] m = m'' := by
    rw [Function.iterate_succ_apply', h.run, hstep]
  refine ⟨hrun, fun i hi => ?_⟩
  rcases Nat.le_succ_iff.mp hi with hbefore | rfl
  · exact h.within i hbefore
  · rwa [hrun]

theorem Leads.iterate_add (h : Leads functions options plan m n m') (i : Nat) :
    (Machine.step functions options plan)^[i + n] m =
      (Machine.step functions options plan)^[i] m' := by
  rw [Function.iterate_add_apply, h.run]

theorem Leads.trans (h : Leads functions options plan m n m')
    (h' : Leads functions options plan m' k m'') (hactive : m.active <:+ m'.active) :
    Leads functions options plan m (k + n) m'' := by
  refine ⟨(h.iterate_add k).trans h'.run, fun i hi => ?_⟩
  rcases Nat.le_total i n with hbefore | hbehind
  · exact h.within i hbefore
  · rw [← Nat.sub_add_cancel hbehind, h.iterate_add]
    exact hactive.trans (h'.within _ (by omega))

/-- A call is refused on one of so many steps. -/
def Refused (functions : Table Function) (options : Options) (plan : Plan) (m : Machine) (n : Nat)
    (function : String) (depth : Nat) : Prop :=
  ∃ i < n, ((step functions options plan)^[i] m).Refuses options function depth

theorem Leads.refused (h : Leads functions options plan m n m') {function : String} {depth : Nat}
    (hrefused : Refused functions options plan m' k function depth) :
    Refused functions options plan m (k + n) function depth := by
  obtain ⟨i, hi, hrefuses⟩ := hrefused
  exact ⟨i + n, by omega, by rwa [h.iterate_add]⟩

/-- What is to be done in a machine comes to an end: with the activations that were in progress,
with a given trace, whose counter is the one from before, and with a given result. The result
tells of a refusal only if a call was refused on the way. -/
def Ends (functions : Table Function) (options : Options) (plan : Plan) (m : Machine)
    (last : Trace × Except Abort Number) : Prop :=
  ∃ n, Leads functions options plan m n ⟨m.active, .done last.2, last.1⟩ ∧
    last.1.depth = m.trace.depth ∧
    ∀ function depth, last.2 = .error (.tooDeep function depth) →
      Refused functions options plan m n function depth

variable {last : Trace × Except Abort Number}

theorem Ends.of_leads (hleads : Leads functions options plan m n m')
    (hactive : m'.active = m.active) (hdepth : m'.trace.depth = m.trace.depth)
    (h : Ends functions options plan m' last) : Ends functions options plan m last := by
  obtain ⟨k, hrun, hsame, hrefused⟩ := h
  rw [hactive] at hrun
  exact ⟨k + n, hleads.trans hrun (hactive ▸ List.suffix_rfl), hsame.trans hdepth,
    fun function depth hresult => hleads.refused (hrefused function depth hresult)⟩

theorem Ends.of_step (hstep : m.step functions options plan = m') (hactive : m'.active = m.active)
    (hdepth : m'.trace.depth = m.trace.depth) (h : Ends functions options plan m' last) :
    Ends functions options plan m last :=
  .of_leads ((Leads.refl m).snoc hstep (hactive ▸ List.suffix_rfl)) hactive hdepth h

/-- A function is entered, its body comes to an end and is left, and its caller goes on, or ends
as the body did. -/
theorem Ends.of_enter {f : Function} {args : List Number}
    {resume : Except Abort Number → Open (Except Abort Number)}
    (hfocus : m.focus = .call f args resume) (hroom : ¬ options.maxDepth ≤ m.trace.depth)
    {inner : Trace × Except Abort Number}
    (hbody : Ends functions options plan (m.enter functions options plan f args resume) inner)
    (hnext : ∀ value, inner.2 = .ok value → Ends functions options plan
      ⟨m.active, resume (.ok value), inner.1.after plan .leave⟩ last)
    (hstop : ∀ cause, inner.2 = .error cause →
      resume (.error cause) = .done (.error cause) ∧
        last = (inner.1.after plan .leave, .error cause)) :
    Ends functions options plan m last := by
  have hstep : m.step functions options plan = m.enter functions options plan f args resume := by
    simp only [step, hfocus, if_neg hroom]
  have hgrows : m.active <:+ (m.enter functions options plan f args resume).active :=
    List.suffix_cons _ _
  have henter := (Leads.refl m).snoc hstep hgrows
  obtain ⟨inner, result⟩ := inner
  obtain ⟨n, hrun, hdepth, hrefused⟩ := hbody
  have hleave : Leads functions options plan m (n + 1 + 1)
      ⟨m.active, resume result, inner.after plan .leave⟩ :=
    (henter.trans hrun hgrows).snoc rfl List.suffix_rfl
  have hsame : (inner.after plan .leave).depth = m.trace.depth := by
    simp only [Trace.after, enter] at hdepth ⊢
    omega
  cases result with
  | ok value => exact .of_leads hleave rfl hsame (hnext value rfl)
  | error cause =>
      obtain ⟨hresume, rfl⟩ := hstop cause rfl
      rw [hresume] at hleave
      refine ⟨_, hleave, hsame, fun function depth hresult => ?_⟩
      obtain ⟨i, hi, hrefuses⟩ := henter.refused (hrefused function depth hresult)
      exact ⟨i, by omega, hrefuses⟩

end Machine

theorem Routine.watch_bind {α β : Type} (plan : Plan) (p : Routine α) (next : α → Routine β)
    (t : Trace) : (p.bind next).watch plan t =
      (next (p.watch plan t).2).watch plan (p.watch plan t).1 := by
  induction p generalizing t with
  | done value => rfl
  | act action rest ih => exact ih () _
  | check resume ih => exact ih _ _

/-- Watching the call of a function is watching its body between entering and leaving it. -/
theorem Function.watch_activateIn (functions : Table Function) (maxIterations : Int) (plan : Plan)
    (f : Function) (args : List Number) (calls : Calls) (t : Trace) :
    let inner := (f.opened functions maxIterations args calls).watch plan
      (t.after plan (.enter f.name))
    (f.activateIn (.waiting functions maxIterations calls) args).watch plan t =
      (inner.1.after plan .leave, inner.2) := by
  have hleave : ∀ (ending : Ending) (t : Trace),
      ((Routine.perform .leave).bind fun _ => ending.result f.name).watch plan t =
        (((ending.result f.name).watch plan t).1.after plan .leave,
          ((ending.result f.name).watch plan t).2) := by
    intro ending t
    cases ending <;> rfl
  simp only [Function.activateIn, Function.opened, Routine.watch_bind]
  exact hleave _ _

namespace Machine

variable {functions : Table Function} {options : Options} {plan : Plan}

/-- Where so many calls may still nest, a call comes to an end if what follows it does. -/
def CallsEnd (functions : Table Function) (options : Options) (plan : Plan) (left : Nat) : Prop :=
  ∀ (f : Function) (args : List Number) (resume : Except Abort Number → Open (Except Abort Number))
    (active : List Activation) (trace : Trace),
    trace.depth = active.length → trace.depth ≤ max 0 options.maxDepth →
    (options.maxDepth - trace.depth).toNat = left →
    (∀ cause, resume (.error cause) = .done (.error cause)) →
    (∀ value trace', trace'.depth = trace.depth →
      Ends functions options plan ⟨active, resume (.ok value), trace'⟩
        (((resume (.ok value)).close (activate functions options left)).watch plan trace')) →
    Ends functions options plan ⟨active, .call f args resume, trace⟩
      (((Open.call f args resume).close (activate functions options left)).watch plan trace)

/-- An orderly computation comes to the end that the routine comes to which it is with its calls
filled in. -/
theorem ends_of_callsEnd {left : Nat} (hcalls : CallsEnd functions options plan left)
    {c : Open (Except Abort Number)} (horder : c.IsOrderly) {active : List Activation}
    {trace : Trace} (hdepth : trace.depth = active.length)
    (hle : trace.depth ≤ max 0 options.maxDepth)
    (hleft : (options.maxDepth - trace.depth).toNat = left) :
    Ends functions options plan ⟨active, c, trace⟩
      ((c.close (activate functions options left)).watch plan trace) := by
  obtain ⟨later, first, horder⟩ := horder
  induction horder generalizing trace with
  | @done _ result h =>
      refine ⟨0, .refl _, rfl, fun function depth hresult => ?_⟩
      change result = _ at hresult
      exact absurd (congrArg abort? hresult) (h function depth)
  | act hinner _ ih =>
      have hsame := depth_after plan hinner trace
      exact .of_step rfl rfl hsame (ih (hsame.trans hdepth) (hsame ▸ hle) (hsame ▸ hleft))
  | check _ ih => exact .of_step rfl rfl rfl (ih _ hdepth hle hleft)
  | @call _ f args resume _ _ error ih =>
      refine hcalls f args resume active trace hdepth hle hleft
        (fun cause => eq_of_stops (error cause)) fun value trace' hsame => ?_
      exact ih value (hsame.trans hdepth) (hsame ▸ hle) (hsame ▸ hleft)

/-- The induction is on the number of calls that may still nest: the last of them is refused its
own calls. -/
theorem callsEnd (functions : Table Function) (options : Options) (plan : Plan) (left : Nat) :
    CallsEnd functions options plan left := by
  induction left with
  | zero =>
      intro f args resume active trace hdepth hle hleft hstop hnext
      have hfull : options.maxDepth ≤ trace.depth := by omega
      have hlimit : trace.depth.toNat = options.maxDepth.toNat := by omega
      have hlast : ((Open.call f args resume).close (activate functions options 0)).watch plan
          trace = (trace, .error (.tooDeep f.name options.maxDepth.toNat)) := by
        simp only [Open.close, activate, Routine.done_bind, hstop]
        rfl
      rw [hlast]
      have hrefuse : step functions options plan ⟨active, .call f args resume, trace⟩ =
          ⟨active, .done (.error (.tooDeep f.name options.maxDepth.toNat)), trace⟩ := by
        simp only [step, if_pos hfull, refuse, hstop, hlimit]
      refine ⟨1, (Leads.refl _).snoc hrefuse List.suffix_rfl, rfl, ?_⟩
      · rintro function depth ⟨⟩
        refine ⟨0, Nat.zero_lt_one, ?_, ?_, f, args, resume, rfl, rfl⟩
        · exact hdepth ▸ hfull
        · change active.length = _
          omega
  | succ left ih =>
      intro f args resume active trace hdepth hle hleft hstop hnext
      have hroom : ¬ options.maxDepth ≤ trace.depth := by omega
      have hinner := Function.watch_activateIn functions options.maxIterations plan f args
        (activate functions options left) trace
      have hbody : Ends functions options plan
          (enter functions options plan ⟨active, .call f args resume, trace⟩ f args resume)
          ((f.opened functions options.maxIterations args (activate functions options left)).watch
            plan (trace.after plan (.enter f.name))) := by
        rw [← (f.body_opens args).close_computation]
        refine ends_of_callsEnd ih (f.body_opens args).computation_isOrderly ?_ ?_ ?_
        · simp [Trace.after, hdepth]
        · simp only [Trace.after]
          omega
        · simp only [Trace.after]
          omega
      dsimp only at hinner
      generalize (f.opened functions options.maxIterations args
        (activate functions options left)).watch plan (trace.after plan (.enter f.name)) = inner
        at hinner hbody
      have hlast : ((Open.call f args resume).close (activate functions options (left + 1))).watch
          plan trace = ((resume inner.2).close (activate functions options (left + 1))).watch plan
            (inner.1.after plan .leave) := by
        rw [Open.close, Routine.watch_bind, activate_succ]
        exact congrArg (fun last : Trace × Except Abort Number =>
          ((resume last.2).close (activate functions options (left + 1))).watch plan last.1) hinner
      rw [hlast]
      refine .of_enter rfl hroom hbody (fun value hvalue => ?_) fun cause hcause => ?_
      · rw [hvalue]
        refine hnext value _ ?_
        obtain ⟨_, _, hsame, _⟩ := hbody
        simp only [Trace.after, enter] at hsame ⊢
        omega
      · rw [hcause, hstop]
        exact ⟨rfl, rfl⟩

/-- An orderly computation comes to the end that the routine comes to which it is with its calls
filled in, however many calls may still nest. -/
theorem ends (functions : Table Function) (options : Options) (plan : Plan)
    {c : Open (Except Abort Number)} (horder : c.IsOrderly) {active : List Activation}
    {trace : Trace} (hdepth : trace.depth = active.length)
    (hle : trace.depth ≤ max 0 options.maxDepth) :
    Ends functions options plan ⟨active, c, trace⟩
      ((c.close (activate functions options (options.maxDepth - trace.depth).toNat)).watch plan
        trace) :=
  ends_of_callsEnd (callsEnd functions options plan _) horder hdepth hle rfl

end Machine

/-- What an interpreter can be asked for. -/
inductive Job where
  | call (f : Function) (args : List Number)
  | evaluate (scope : Scope) (e : Expr)

namespace Job

/-- What is asked for, as it is run. -/
def routine (env : Env) : Job → Routine (Except Abort Number)
  | .call f args => env.call f args
  | .evaluate scope e => ToyC.evaluate env scope e

/-- What is asked for, with its calls left open. -/
noncomputable def computation (functions : Table Function) (maxIterations : Int) :
    Job → Open (Except Abort Number)
  | .call f args => .call f args .done
  | .evaluate scope e =>
    (@evaluate_opens functions maxIterations scope e).computation

theorem close_computation (functions : Table Function) (maxIterations : Int) (calls : Calls)
    (job : Job) : (job.computation functions maxIterations).close calls =
      job.routine (.waiting functions maxIterations calls) := by
  cases job with
  | call f args => exact Routine.bind_done (calls f args)
  | evaluate scope e => exact (evaluate_opens scope e).close_computation calls

theorem computation_isOrderly (functions : Table Function) (maxIterations : Int) (job : Job) :
    (job.computation functions maxIterations).IsOrderly := by
  cases job with
  | call f args =>
      exact ⟨1, 1, .call trivial (fun _ => .done (by simp [abort?])) fun cause => ⟨_, rfl, rfl⟩⟩
  | evaluate scope e => exact (evaluate_opens scope e).computation_isOrderly

end Job

namespace Machine

/-- An interpreter is asked for a call or for the number of an expression, among any activations
that are in progress and under any plan of cancellation. In every state that it reaches, the
counter is the number of activations in progress and no greater than the limit. A call that is
attempted is refused exactly where the limit is reached by them. It comes to an end, with the
result of the interpreter that is run and with the counter from before, and the result tells of a
refusal only if a call was refused on the way. Where it is stopped from outside before that, the
abort takes it to the activations and to the counter from before. -/
theorem activations (functions : Table Function) (options : Options) (plan : Plan) (job : Job)
    {active : List Activation} {trace : Trace} (hactive : ∀ a ∈ active, a.Orderly)
    (hdepth : trace.depth = active.length) (hle : trace.depth ≤ max 0 options.maxDepth) :
    let reached (n : Nat) : Machine := (step functions options plan)^[n]
      ⟨active, job.computation functions options.maxIterations, trace⟩
    let last := (job.routine (envWithin functions options
      (options.maxDepth - trace.depth).toNat)).watch plan trace
    (∀ n, (reached n).trace.depth = (reached n).active.length ∧
      (reached n).trace.depth ≤ max 0 options.maxDepth) ∧
    (∀ n f args resume, (reached n).focus = .call f args resume →
      reached (n + 1) =
        if options.maxDepth ≤ (reached n).active.length then (reached n).refuse f resume
        else (reached n).enter functions options plan f args resume) ∧
    ∃ n, reached n = ⟨active, .done last.2, last.1⟩ ∧ last.1.depth = trace.depth ∧
      (∀ function depth, last.2 = .error (.tooDeep function depth) →
        ∃ i < n, (reached i).Refuses options function depth) ∧
      ∀ i ≤ n, ∀ cause, ∃ k after, (step functions options plan)^[k] ((reached i).interrupt cause) =
        ⟨active, .done (.error cause), after⟩ ∧ after.depth = trace.depth := by
  intro reached last
  have horder := job.computation_isOrderly functions options.maxIterations
  have hstart : Sound options ⟨active, job.computation functions options.maxIterations, trace⟩ :=
    ⟨hdepth, hle, .inr horder, hactive⟩
  have hsound : ∀ n, (reached n).Sound options := fun n => hstart.iterate n
  refine ⟨fun n => ⟨(hsound n).depth, (hsound n).le⟩, fun n f args resume hfocus => ?_, ?_⟩
  · rw [← (hsound n).depth]
    change (step functions options plan)^[n + 1] _ = _
    rw [Function.iterate_succ_apply']
    change (reached n).step functions options plan = _
    simp only [step, hfocus]
  · have hends := ends functions options plan horder hdepth hle
    rw [Job.close_computation] at hends
    obtain ⟨n, hrun, hsame, hrefused⟩ := hends
    refine ⟨n, hrun.run, hsame, hrefused, fun i hi cause => ?_⟩
    obtain ⟨inner, hinner⟩ := hrun.within i hi
    have hstopped := (hsound i).interrupt cause
    have hactive : (reached i).interrupt cause =
        ⟨inner ++ active, .done (.error cause), (reached i).trace⟩ := by
      rw [hinner]
      rfl
    rw [hactive] at hstopped ⊢
    obtain ⟨k, after, hunwound, hafter⟩ :=
      @Sound.unwind functions options plan cause inner active _ hstopped
    exact ⟨k, after, hunwound, hafter.trans hdepth.symm⟩

/-- A function that calls itself for ever. -/
def sinking : Table Function :=
  [("sink",
    { signature := ⟨"int", "sink", [⟨"int", "n"⟩]⟩
      lines := []
      body := [.simple ⟨"return 1 + sink(n);", .returns (some
        (.binary {} (.arith .add) (.literal {} (.number 1))
          (.call {} "sink" [.name {} "n"])))⟩] })]

theorem watch_sinking :
    ((Job.evaluate [] (.call {} "sink" [])).routine (envWithin sinking ⟨1000, 2⟩ 1)).watch {}
      { depth := 1 } = ({ depth := 1 }, .error (.tooDeep "sink" 2)) :=
  rfl

/-- With one activation in progress and room for two, the second call that nests is refused. -/
theorem activations_sinking :
    let options : Options := ⟨1000, 2⟩
    let job := Job.evaluate [] (.call {} "sink" [])
    let caller : Activation := ⟨"main", .done⟩
    let trace : Trace := { depth := 1 }
    (caller.Orderly ∧ trace.depth = [caller].length ∧ trace.depth ≤ max 0 options.maxDepth) ∧
    ∃ n after, (step sinking options {})^[n] ⟨[caller], job.computation sinking 1000, trace⟩ =
        ⟨[caller], .done (.error (.tooDeep "sink" 2)), after⟩ ∧
      after.depth = 1 ∧
      ∃ i < n, ((step sinking options {})^[i]
        ⟨[caller], job.computation sinking 1000, trace⟩).Refuses options "sink" 2 := by
  intro options job caller trace
  have hcaller : caller.Orderly :=
    ⟨fun value => ⟨0, 0, .done (by simp [abort?])⟩, fun cause => rfl⟩
  have hle : trace.depth ≤ max 0 options.maxDepth := by decide
  obtain ⟨-, -, n, hrun, hdepth, hrefusal, -⟩ := @activations sinking options {} job [caller] trace
    (by simpa using hcaller) rfl hle
  have hresult : ((job.routine (envWithin sinking options
      (options.maxDepth - trace.depth).toNat)).watch {} trace).2 = .error (.tooDeep "sink" 2) :=
    congrArg Prod.snd watch_sinking
  rw [hresult] at hrun
  exact ⟨⟨hcaller, rfl, hle⟩, n, _, hrun, hdepth, hrefusal "sink" 2 hresult⟩

end Machine

end ToyC
