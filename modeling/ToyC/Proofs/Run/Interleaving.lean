import ToyC.Proofs.Run.Live
import ToyC.Run.Schedule

/-!
Routines that are resumed one at a time, in any order. A turn lasts from one pause
to the next, and everything that is seen goes to one log, with the number of the
routine that shows it. A routine has nothing from the others but the answers to its
checks, so it does what it does alone under the schedule of cancellation that those
answers make up.
-/

namespace ToyC

/-- A sight, and the number of the routine that shows it. -/
structure Entry where
  source : Nat
  sight : Sight
  deriving DecidableEq, Repr

/-- What a log holds of one routine. -/
def seenBy (i : Nat) (log : List Entry) : List Sight :=
  log.filterMap fun e => if e.source = i then some e.sight else none

@[simp] theorem seenBy_nil (i : Nat) : seenBy i [] = [] := rfl

@[simp] theorem seenBy_append (i : Nat) (front back : List Entry) :
    seenBy i (front ++ back) = seenBy i front ++ seenBy i back := by
  simp [seenBy]

/-- Entries of one routine for what it shows. -/
def Sight.entries (i : Nat) (sights : List Sight) : List Entry :=
  sights.map fun sight => { source := i, sight }

theorem Sight.entries_single (i : Nat) (sight : Sight) :
    Sight.entries i [sight] = [{ source := i, sight }] := rfl

@[simp] theorem seenBy_entries (i : Nat) (sights : List Sight) :
    seenBy i (Sight.entries i sights) = sights := by
  simp only [seenBy, Sight.entries, List.filterMap_map, Function.comp_def, ↓reduceIte,
    List.filterMap_some]

theorem seenBy_entries_of_ne {i j : Nat} (h : j ≠ i) (sights : List Sight) :
    seenBy j (Sight.entries i sights) = [] := by
  simp [seenBy, Sight.entries, List.filterMap_map, Ne.symm h]

theorem seenBy_isPrefix {front log : List Entry} (h : front <+: log) (i : Nat) :
    seenBy i front <+: seenBy i log := by
  obtain ⟨back, rfl⟩ := h
  simp

/-- The chunks of a log, each with the routine that printed it. -/
def events (log : List Entry) : List Event :=
  log.filterMap fun e => e.sight.text?.map fun chunk => { source := e.source, chunk }

@[simp] theorem events_append (front back : List Entry) :
    events (front ++ back) = events front ++ events back := by
  simp [events]

/-- Whether routines are cancelled when so much has been logged. Once cancelled, a routine stays
so. -/
structure Tokens where
  cancelled : Nat → List Entry → Bool
  stays (i : Nat) (log more : List Entry) (h : cancelled i log = true) :
    cancelled i (log ++ more) = true

namespace Routine

variable {α : Type}

/-- One turn of a routine: up to the next pause, or to the end. -/
def resume (tokens : Tokens) (i : Nat) : Routine α → List Entry → (α ⊕ Routine α) × List Entry
  | .done value, log => (.inl value, log)
  | .act .pause rest, log => (.inr (rest ()), log)
  | .act (.print chunk) rest, log =>
    (rest ()).resume tokens i (log ++ [{ source := i, sight := .chunk chunk }])
  | .act _ rest, log => (rest ()).resume tokens i log
  | .check resume, log =>
    (resume (tokens.cancelled i log)).resume tokens i (log ++ [{ source := i, sight := .check }])

end Routine

/-- Routines side by side, those that have ended with their values, and what has been logged. -/
structure Pool (α : Type) where
  tasks : List (α ⊕ Routine α)
  log : List Entry

namespace Pool

variable {α : Type}

/-- Before the first turn. -/
def start (routines : List (Routine α)) : Pool α :=
  { tasks := routines.map .inr, log := [] }

/-- Give a turn to a routine; nothing happens where it has ended. -/
def resume (tokens : Tokens) (pool : Pool α) (i : Nat) : Pool α :=
  match pool.tasks[i]? with
  | some (.inr p) =>
    let (task, log) := p.resume tokens i pool.log
    { tasks := pool.tasks.set i task, log }
  | _ => pool

/-- Give turns in an order. -/
def resumeAll (tokens : Tokens) (pool : Pool α) (order : List Nat) : Pool α :=
  order.foldl (resume tokens) pool

end Pool

/-! ### What a turn does -/

namespace Routine

variable {α : Type} (tokens : Tokens) (i : Nat)

/-- A turn only adds to the log, and only entries of its own. -/
theorem resume_log (p : Routine α) (log : List Entry) :
    ∃ shown, (p.resume tokens i log).2 = log ++ Sight.entries i shown := by
  induction p generalizing log with
  | done value => exact ⟨[], by simp [resume, Sight.entries]⟩
  | act action rest ih =>
      cases action with
      | pause => exact ⟨[], by simp [resume, Sight.entries]⟩
      | print chunk =>
          obtain ⟨shown, h⟩ := ih () (log ++ [{ source := i, sight := .chunk chunk }])
          exact ⟨.chunk chunk :: shown, by simp [resume, h, Sight.entries]⟩
      | _ => exact ih () log
  | check answer ih =>
      obtain ⟨shown, h⟩ :=
        ih (tokens.cancelled i log) (log ++ [{ source := i, sight := .check }])
      exact ⟨.check :: shown, by simp [resume, h, Sight.entries]⟩

/-- A check is logged where it is made. -/
theorem resume_asks (answer : Bool → Routine α) (log : List Entry) :
    log ++ [{ source := i, sight := .check }] <+:
      ((Routine.check answer).resume tokens i log).2 := by
  obtain ⟨shown, hlog⟩ := (answer (tokens.cancelled i log)).resume_log tokens i
    (log ++ [{ source := i, sight := .check }])
  exact ⟨_, hlog.symm⟩

theorem resume_height_lt {p q : Routine α} {log : List Entry}
    (h : (p.resume tokens i log).1 = .inr q) : q.height < p.height := by
  induction p generalizing log with
  | done value => cases h
  | act action rest ih =>
      cases action with
      | pause =>
          cases h
          exact Nat.lt_succ_self _
      | _ => exact Nat.lt_succ_of_lt (ih () h)
  | check answer ih => exact Nat.lt_trans (ih _ h) (height_resume_le answer _)

end Routine

namespace Pool

variable {α : Type} (tokens : Tokens)

/-- What a turn does to a pool. -/
theorem resume_cases (pool : Pool α) (i : Nat) :
    ((∀ p, pool.tasks[i]? ≠ some (.inr p)) ∧ pool.resume tokens i = pool) ∨
    ∃ p, pool.tasks[i]? = some (.inr p) ∧
      pool.resume tokens i =
        { tasks := pool.tasks.set i (p.resume tokens i pool.log).1
          log := (p.resume tokens i pool.log).2 } := by
  unfold resume
  split
  · rename_i p hp
    exact Or.inr ⟨p, hp, rfl⟩
  · rename_i hnone
    exact Or.inl ⟨hnone, rfl⟩

/-- A turn of a routine that waits. -/
theorem resume_self {pool : Pool α} {i : Nat} {p : Routine α}
    (hp : pool.tasks[i]? = some (.inr p)) :
    (pool.resume tokens i).tasks[i]? = some (p.resume tokens i pool.log).1 ∧
      (pool.resume tokens i).log = (p.resume tokens i pool.log).2 := by
  obtain ⟨hlength, -⟩ := List.getElem?_eq_some_iff.mp hp
  rw [resume, hp]
  exact ⟨List.getElem?_set_self hlength, rfl⟩

theorem resume_log (pool : Pool α) (i : Nat) :
    ∃ shown, (pool.resume tokens i).log = pool.log ++ Sight.entries i shown ∧
      (shown ≠ [] → i < pool.tasks.length) := by
  obtain ⟨-, h⟩ | ⟨p, hp, h⟩ := pool.resume_cases tokens i
  · exact ⟨[], by simp [h, Sight.entries], fun hne => absurd rfl hne⟩
  · obtain ⟨shown, hshown⟩ := p.resume_log tokens i pool.log
    obtain ⟨hlength, -⟩ := List.getElem?_eq_some_iff.mp hp
    exact ⟨shown, by rw [h]; exact hshown, fun _ => hlength⟩

theorem length_resume (pool : Pool α) (i : Nat) :
    (pool.resume tokens i).tasks.length = pool.tasks.length := by
  obtain ⟨-, h⟩ | ⟨p, -, h⟩ := pool.resume_cases tokens i <;> simp [h]

/-- A turn of one routine is nothing to another. -/
theorem resume_other (pool : Pool α) {i j : Nat} (h : j ≠ i) :
    (pool.resume tokens i).tasks[j]? = pool.tasks[j]? ∧
      seenBy j (pool.resume tokens i).log = seenBy j pool.log := by
  constructor
  · obtain ⟨-, hpool⟩ | ⟨p, -, hpool⟩ := pool.resume_cases tokens i
    · rw [hpool]
    · simp [hpool, List.getElem?_set_ne (Ne.symm h)]
  · obtain ⟨shown, hlog, -⟩ := pool.resume_log tokens i
    simp [hlog, seenBy_entries_of_ne h]

theorem resumeAll_isPrefix (pool : Pool α) (order : List Nat) :
    pool.log <+: (pool.resumeAll tokens order).log := by
  induction order generalizing pool with
  | nil => exact List.prefix_rfl
  | cons i order ih =>
      obtain ⟨shown, hlog, -⟩ := pool.resume_log tokens i
      exact (hlog ▸ List.prefix_append _ _).trans (ih (pool.resume tokens i))

theorem length_resumeAll (pool : Pool α) (order : List Nat) :
    (pool.resumeAll tokens order).tasks.length = pool.tasks.length := by
  induction order generalizing pool with
  | nil => rfl
  | cons i order ih => exact (ih (pool.resume tokens i)).trans (pool.length_resume tokens i)

/-- Every entry of a log belongs to a routine of the pool. -/
theorem resumeAll_sources (pool : Pool α) (h : ∀ e ∈ pool.log, e.source < pool.tasks.length)
    (order : List Nat) :
    ∀ e ∈ (pool.resumeAll tokens order).log, e.source < pool.tasks.length := by
  induction order generalizing pool with
  | nil => exact h
  | cons i order ih =>
      rw [← length_resume tokens pool i]
      refine ih (pool.resume tokens i) fun e he => ?_
      rw [length_resume]
      obtain ⟨shown, hlog, hbound⟩ := pool.resume_log tokens i
      rw [hlog, List.mem_append] at he
      cases he with
      | inl hold => exact h e hold
      | inr hnew =>
          obtain ⟨sight, hsight, rfl⟩ := List.mem_map.mp hnew
          exact hbound (List.ne_nil_of_mem hsight)

/-! ### Routines that end -/

theorem resume_ended {pool : Pool α} {i : Nat} {value : α} (h : pool.tasks[i]? = some (.inl value))
    (j : Nat) : (pool.resume tokens j).tasks[i]? = some (.inl value) := by
  obtain ⟨-, hpool⟩ | ⟨p, hp, hpool⟩ := pool.resume_cases tokens j
  · rw [hpool, h]
  · have hne : i ≠ j := by
      rintro rfl
      rw [h] at hp
      cases hp
    rw [(pool.resume_other tokens hne).1, h]

theorem resumeAll_ended {pool : Pool α} {i : Nat} {value : α}
    (h : pool.tasks[i]? = some (.inl value)) (order : List Nat) :
    (pool.resumeAll tokens order).tasks[i]? = some (.inl value) := by
  induction order generalizing pool with
  | nil => exact h
  | cons j order ih => exact ih (resume_ended tokens h j)

/-- Each turn leaves less of a routine, so it ends when it has had enough of them. -/
theorem resumeAll_ends {pool : Pool α} {i : Nat} {p : Routine α}
    (hp : pool.tasks[i]? = some (.inr p)) {order : List Nat} (hmany : p.height < order.count i) :
    ∃ value, (pool.resumeAll tokens order).tasks[i]? = some (.inl value) := by
  induction order generalizing pool p with
  | nil => simp at hmany
  | cons j order ih =>
      by_cases hj : i = j
      · subst hj
        rw [List.count_cons_self] at hmany
        obtain ⟨htask, -⟩ := resume_self tokens hp
        cases hstage : (p.resume tokens i pool.log).1 with
        | inl value =>
            exact ⟨value, resumeAll_ended tokens (htask.trans (congrArg some hstage)) order⟩
        | inr q =>
            have hless := p.resume_height_lt tokens i hstage
            exact ih (htask.trans (congrArg some hstage)) (by omega)
      · rw [List.count_cons_of_ne (Ne.symm hj)] at hmany
        exact ih ((pool.resume_other tokens hj).1.trans hp) hmany

end Pool

/-! ### Routines beside others and alone -/

/-- The answers that a routine is given in a log are those of a schedule for the routine alone. -/
def Tokens.Follows (tokens : Tokens) (i : Nat) (cancels : List Sight → Bool)
    (log : List Entry) : Prop :=
  ∀ before, before ++ [{ source := i, sight := .check }] <+: log →
    tokens.cancelled i before = cancels (seenBy i before)

theorem Tokens.Follows.front {tokens : Tokens} {i : Nat} {cancels : List Sight → Bool}
    {front log : List Entry} (h : tokens.Follows i cancels log) (hfront : front <+: log) :
    tokens.Follows i cancels front :=
  fun before hbefore => h before (hbefore.trans hfront)

/-- What a routine comes to show, and its value, from where it stands. -/
def liveFrom {α : Type} (cancels : List Sight → Bool) (seen : List Sight) :
    α ⊕ Routine α → List Sight × α
  | .inl value => (seen, value)
  | .inr p => p.live cancels seen

section

variable {α : Type} {tokens : Tokens} {i : Nat} {cancels : List Sight → Bool}

theorem Routine.resume_live {p : Routine α} {log : List Entry}
    (h : tokens.Follows i cancels (p.resume tokens i log).2) :
    liveFrom cancels (seenBy i (p.resume tokens i log).2) (p.resume tokens i log).1 =
      p.live cancels (seenBy i log) := by
  induction p generalizing log with
  | done value => rfl
  | act action rest ih =>
      cases action with
      | pause => rfl
      | print chunk =>
          have hrest := ih () h
          rwa [seenBy_append, ← Sight.entries_single, seenBy_entries] at hrest
      | _ => exact ih () h
  | check answer ih =>
      have hrest := ih (tokens.cancelled i log) h
      rw [seenBy_append, ← Sight.entries_single, seenBy_entries] at hrest
      rw [live_check, ← h log (resume_asks tokens i answer log)]
      exact hrest

namespace Pool

/-- One turn of any routine keeps what another comes to. -/
theorem resume_live {pool : Pool α} {j : Nat} {task : α ⊕ Routine α}
    (h : tokens.Follows i cancels (pool.resume tokens j).log)
    (htask : pool.tasks[i]? = some task) :
    ∃ task', (pool.resume tokens j).tasks[i]? = some task' ∧
      liveFrom cancels (seenBy i (pool.resume tokens j).log) task' =
        liveFrom cancels (seenBy i pool.log) task := by
  by_cases hj : i = j
  · subst hj
    obtain ⟨-, hpool⟩ | ⟨p, hp, -⟩ := pool.resume_cases tokens i
    · exact ⟨task, by rw [hpool, htask], by rw [hpool]⟩
    · obtain rfl : task = .inr p := Option.some.inj (htask.symm.trans hp)
      obtain ⟨hself, hlog⟩ := resume_self tokens hp
      rw [hlog] at h ⊢
      exact ⟨_, hself, Routine.resume_live h⟩
  · obtain ⟨htasks, hseen⟩ := pool.resume_other tokens hj
    exact ⟨task, htasks.trans htask, by rw [hseen]⟩

/-- In any order of turns, a routine comes to what it comes to alone. -/
theorem resumeAll_live {pool : Pool α} {order : List Nat} {task : α ⊕ Routine α}
    (h : tokens.Follows i cancels (pool.resumeAll tokens order).log)
    (htask : pool.tasks[i]? = some task) :
    ∃ task', (pool.resumeAll tokens order).tasks[i]? = some task' ∧
      liveFrom cancels (seenBy i (pool.resumeAll tokens order).log) task' =
        liveFrom cancels (seenBy i pool.log) task := by
  induction order generalizing pool task with
  | nil => exact ⟨task, htask, rfl⟩
  | cons j order ih =>
      -- the answers of the first turn stay in the log, so they follow the schedule as well
      have hturn : tokens.Follows i cancels (pool.resume tokens j).log :=
        h.front ((pool.resume tokens j).resumeAll_isPrefix tokens order)
      obtain ⟨next, hnext, hstep⟩ := resume_live hturn htask
      obtain ⟨last, hlast, hrun⟩ := ih h hnext
      exact ⟨last, hlast, hrun.trans hstep⟩

end Pool

end

/-! ### Cancellation at a moment of a log -/

namespace Tokens

variable (tokens : Tokens) (i : Nat) (log : List Entry)

/-- The first moment at which a routine is cancelled, if any: how much had been logged. -/
def moment? : Option Nat :=
  (List.range (log.length + 1)).find? fun m => tokens.cancelled i (log.take m)

/-- The cancellation of a routine alone that stands for the one in a log: at the first check after
the moment. -/
def plan : Plan :=
  match tokens.moment? i log with
  | none => {}
  | some m => .cancelAt (Sight.checks (seenBy i (log.take m)))

theorem not_cancelled_of_moment?_eq_none (h : tokens.moment? i log = none)
    {before : List Entry} (hbefore : before <+: log) : tokens.cancelled i before = false := by
  have hnever := List.find?_range_eq_none.mp h before.length
    (Nat.lt_succ_of_le hbefore.length_le)
  rw [← List.prefix_iff_eq_take.mp hbefore] at hnever
  simpa using hnever

/-- A routine is cancelled from its moment on. -/
theorem cancelled_iff_of_moment?_eq_some {m : Nat} (h : tokens.moment? i log = some m)
    {before : List Entry} (hbefore : before <+: log) :
    tokens.cancelled i before = true ↔ log.take m <+: before := by
  obtain ⟨hnow, hbound, hearlier⟩ := List.find?_range_eq_some.mp h
  have htake : log.take m <+: log := List.take_prefix m log
  constructor
  · intro hcancelled
    refine List.prefix_of_prefix_length_le htake hbefore (Nat.le_of_not_lt fun hearly => ?_)
    have hnot := hearlier before.length (by rw [List.length_take] at hearly; omega)
    rw [← List.prefix_iff_eq_take.mp hbefore] at hnot
    simp [hcancelled] at hnot
  · rintro ⟨more, rfl⟩
    exact tokens.stays i _ more hnow

theorem plan_follows : tokens.Follows i (tokens.plan i log).cancels log := by
  intro before hasked
  have hbefore : before <+: log := (List.prefix_append _ _).trans hasked
  unfold plan
  split
  · rename_i hnone
    rw [tokens.not_cancelled_of_moment?_eq_none i log hnone hbefore]
    rfl
  · rename_i m hsome
    rw [Bool.eq_iff_iff, tokens.cancelled_iff_of_moment?_eq_some i log hsome hbefore,
      Plan.cancels_cancelAt]
    constructor
    · exact fun hlate => Sight.checks_le_of_prefix (seenBy_isPrefix hlate i)
    · intro hmany
      have htake : log.take m <+: log := List.take_prefix m log
      refine List.prefix_of_prefix_length_le htake hbefore (Nat.le_of_not_lt fun hearly => ?_)
      -- the check that is being made would be one of those before the moment
      have hcounted : before ++ [{ source := i, sight := .check }] <+: log.take m :=
        List.prefix_of_prefix_length_le hasked htake (by rw [List.length_append]; exact hearly)
      have hmade := Sight.checks_le_of_prefix (seenBy_isPrefix hcounted i)
      rw [seenBy_append, ← Sight.entries_single, seenBy_entries, Sight.checks_append,
        Sight.checks_check] at hmade
      omega

end Tokens

end ToyC
