import Mathlib.Algebra.Order.BigOperators.Group.List
import Mathlib.Algebra.Order.Group.Nat
import ToyC.Proofs.Run.Interleaving

/-!
Turns by a queue. The routine at the head takes a turn, and goes to the end where it
pauses. The events then come in rounds: first what every routine prints before its
first pause, then what each prints before its second, and so on. The scheduler gives
its turns in this order.
-/

namespace ToyC

/-! ### Rounds -/

/-- What a routine alone prints from one pause to the next. -/
def Routine.cuts {α : Type} (cancels : List Sight → Bool) :
    Routine α → List Sight → List (List String)
  | .done _, _ => [[]]
  | .act .pause rest, seen => [] :: (rest ()).cuts cancels seen
  | .act (.print chunk) rest, seen =>
    ((rest ()).cuts cancels (seen ++ [.chunk chunk])).modifyHead (chunk :: ·)
  | .act _ rest, seen => (rest ()).cuts cancels seen
  | .check resume, seen => (resume (cancels seen)).cuts cancels (seen ++ [.check])

theorem Routine.cuts_ne_nil {α : Type} (cancels : List Sight → Bool) (p : Routine α)
    (seen : List Sight) : p.cuts cancels seen ≠ [] := by
  induction p generalizing seen with
  | done value => simp [cuts]
  | act action rest ih =>
      cases action with
      | pause => simp [cuts]
      | print chunk => simpa [cuts, List.modifyHead_eq_nil_iff] using ih () _
      | _ => exact ih () seen
  | check resume ih => exact ih _ _

/-- The cuts are what the routine prints alone, divided at its pauses. -/
theorem Routine.chunks_live {α : Type} (cancels : List Sight → Bool) (p : Routine α)
    (seen : List Sight) : Sight.chunks (p.live cancels seen).1 =
      Sight.chunks seen ++ (p.cuts cancels seen).flatten := by
  induction p generalizing seen with
  | done value => simp [cuts, live]
  | act action rest ih =>
      cases action with
      | print chunk =>
          refine (ih () _).trans ?_
          cases hcuts : (rest ()).cuts cancels (seen ++ [.chunk chunk]) with
          | nil => exact absurd hcuts (cuts_ne_nil cancels _ _)
          | cons cut more => simp [cuts, hcuts]
      | pause => simpa [cuts, live] using ih () seen
      | _ => exact ih () seen
  | check resume ih =>
      refine (ih _ _).trans ?_
      simp [cuts]

/-- Chunks of one routine as events. -/
def eventsOf (i : Nat) (chunks : List String) : List Event :=
  chunks.map fun chunk => { source := i, chunk }

/-- Routines by their numbers, each with the cuts that it still has to print. -/
abbrev Parts := List (Nat × List (List String))

namespace Parts

/-- A round: every routine adds its cut of that number, if it has so many. -/
def round (r : Nat) (parts : Parts) : List Event :=
  parts.flatMap fun part => eventsOf part.1 (part.2[r]?.getD [])

/-- The number of cuts of the longest routine. -/
def longest (parts : Parts) : Nat :=
  (parts.map (·.2.length)).foldr max 0

/-- The rounds one after another. -/
def roundRobin (parts : Parts) : List Event :=
  (List.range parts.longest).flatMap fun r => round r parts

theorem longest_le_iff {parts : Parts} {n : Nat} :
    parts.longest ≤ n ↔ ∀ part ∈ parts, part.2.length ≤ n := by
  induction parts with
  | nil => simp [longest]
  | cons part rest ih =>
      simp only [longest, List.map_cons, List.foldr_cons, Nat.max_le, List.forall_mem_cons]
      exact and_congr_right fun _ => ih

theorem round_eq_nil {parts : Parts} {r : Nat} (h : parts.longest ≤ r) : round r parts = [] := by
  rw [longest_le_iff] at h
  simp only [round, List.flatMap_eq_nil_iff]
  intro part hpart
  rw [List.getElem?_eq_none (h part hpart)]
  rfl

/-- More rounds than there are cuts add nothing. -/
theorem roundRobin_eq {parts : Parts} {n : Nat} (h : parts.longest ≤ n) :
    parts.roundRobin = (List.range n).flatMap fun r => round r parts := by
  induction h with
  | refl => rfl
  | step hle ih => rw [ih, List.range_succ, List.flatMap_append, List.flatMap_singleton,
      round_eq_nil hle, List.append_nil]

/-- What is done first in every round can as well be done last, one round later. -/
theorem flatMap_range_rotate {α : Type} (first rest : Nat → List α) (n : Nat) :
    ((List.range n).flatMap fun r => first r ++ rest r) ++ first n =
      first 0 ++ (List.range n).flatMap fun r => rest r ++ first (r + 1) := by
  induction n with
  | zero => simp
  | succ n ih =>
      simp only [List.range_succ, List.flatMap_append, List.flatMap_singleton]
      rw [← List.append_assoc (first 0), ← ih]
      simp only [List.append_assoc]

/-- A queue whose first routine takes its turn and goes to the end. -/
theorem roundRobin_rotate (i : Nat) (cut : List String) (cuts : List (List String))
    (rest : Parts) : roundRobin ((i, cut :: cuts) :: rest) =
      eventsOf i cut ++ roundRobin (rest ++ [(i, cuts)]) := by
  -- as many rounds as either side needs; in the last of them the first routine prints nothing
  let n := longest ((i, cut :: cuts) :: rest)
  have hbounds : cuts.length + 1 ≤ n ∧ ∀ part ∈ rest, part.2.length ≤ n := by
    simpa using longest_le_iff.mp (Nat.le_refl n)
  have hrest : longest (rest ++ [(i, cuts)]) ≤ n := by
    rw [longest_le_iff]
    simp only [List.mem_append, List.mem_singleton]
    rintro part (hpart | rfl)
    · exact hbounds.2 part hpart
    · exact Nat.le_of_succ_le hbounds.1
  have hrotate := flatMap_range_rotate
    (fun r => eventsOf i ((cut :: cuts)[r]?.getD [])) (fun r => round r rest) n
  have hlast : (cut :: cuts)[n]? = none := List.getElem?_eq_none hbounds.1
  simp only [hlast, Option.getD_none] at hrotate
  rw [roundRobin_eq (Nat.le_refl n), roundRobin_eq hrest]
  simpa [round, eventsOf] using hrotate

example : roundRobin [(0, [["a"], ["b", "c"]]), (1, [["d"]])] =
    [⟨0, "a"⟩, ⟨1, "d"⟩, ⟨0, "b"⟩, ⟨0, "c"⟩] := by
  decide

theorem roundRobin_drop (i : Nat) (rest : Parts) :
    roundRobin (rest ++ [(i, [])]) = roundRobin rest := by
  have hlongest : longest (rest ++ [(i, [])]) ≤ rest.longest := by
    rw [longest_le_iff]
    simp only [List.mem_append, List.mem_singleton]
    rintro part (hpart | rfl)
    · exact longest_le_iff.mp (Nat.le_refl _) part hpart
    · exact Nat.zero_le _
  rw [roundRobin_eq hlongest, roundRobin]
  simp [round, eventsOf]

end Parts

/-! ### First in, first out -/

namespace Pool

variable {α : Type}

/-- Whether a routine of a pool is still to be resumed. -/
def waits (pool : Pool α) (i : Nat) : Bool :=
  match pool.tasks[i]? with
  | some (.inr _) => true
  | _ => false

theorem waits_iff (pool : Pool α) (i : Nat) :
    pool.waits i = true ↔ ∃ p, pool.tasks[i]? = some (.inr p) := by
  unfold waits
  split
  · rename_i p hp
    simp [hp]
  · rename_i hnone
    simpa using hnone

end Pool

/-- Orders of turns by a queue: the routine at its head takes a turn and goes to its end, unless
it has ended. -/
inductive Fifo {α : Type} (tokens : Tokens) : List Nat → Pool α → List Nat → Prop
  | empty (pool : Pool α) : Fifo tokens [] pool []
  | turn {i : Nat} {queue order : List Nat} {pool : Pool α}
      (h : Fifo tokens (queue ++ if (pool.resume tokens i).waits i then [i] else [])
        (pool.resume tokens i) order) : Fifo tokens (i :: queue) pool (i :: order)

/-- The cuts that are left of a routine, from where it stands. -/
def cutsFrom {α : Type} (cancels : List Sight → Bool) (seen : List Sight) :
    α ⊕ Routine α → List (List String)
  | .inl _ => []
  | .inr p => p.cuts cancels seen

@[simp] theorem eventsOf_cons (i : Nat) (chunk : String) (chunks : List String) :
    eventsOf i (chunk :: chunks) = { source := i, chunk } :: eventsOf i chunks := rfl

/-- A turn prints the first cut that is left. -/
theorem Routine.resume_cuts {α : Type} {tokens : Tokens} {i : Nat} {cancels : List Sight → Bool}
    {p : Routine α} {log : List Entry} (h : tokens.Follows i cancels (p.resume tokens i log).2) :
    ∃ cut, events (p.resume tokens i log).2 = events log ++ eventsOf i cut ∧
      p.cuts cancels (seenBy i log) = cut ::
        cutsFrom cancels (seenBy i (p.resume tokens i log).2) (p.resume tokens i log).1 := by
  induction p generalizing log with
  | done value => exact ⟨[], by simp [resume, eventsOf], rfl⟩
  | act action rest ih =>
      cases action with
      | pause => exact ⟨[], by simp [resume, eventsOf], rfl⟩
      | print chunk =>
          obtain ⟨cut, hevents, hcuts⟩ := ih () h
          refine ⟨chunk :: cut, ?_, ?_⟩
          · exact hevents.trans (by simp [events, Sight.text?])
          · rw [seenBy_append, ← Sight.entries_single, seenBy_entries] at hcuts
            simp only [cuts, hcuts]
            rfl
      | _ => exact ih () h
  | check answer ih =>
      obtain ⟨cut, hevents, hcuts⟩ := ih (tokens.cancelled i log) h
      refine ⟨cut, ?_, ?_⟩
      · exact hevents.trans (by simp [events, Sight.text?])
      · rw [seenBy_append, ← Sight.entries_single, seenBy_entries] at hcuts
        rw [cuts, ← h log (resume_asks tokens i answer log)]
        exact hcuts

namespace Pool

variable {α : Type} {tokens : Tokens} {cancels : Nat → List Sight → Bool} {pool : Pool α}

/-- The cuts that are left of a routine of a pool. -/
def cutsLeft (cancels : Nat → List Sight → Bool) (pool : Pool α) (i : Nat) : List (List String) :=
  match pool.tasks[i]? with
  | some task => cutsFrom (cancels i) (seenBy i pool.log) task
  | none => []

theorem cutsLeft_of_not_waits {i : Nat} (h : pool.waits i = false) :
    pool.cutsLeft cancels i = [] := by
  unfold cutsLeft
  unfold waits at h
  split
  · rename_i task htask
    cases task with
    | inl value => rfl
    | inr p => simp [htask] at h
  · rfl

theorem cutsLeft_other {i j : Nat} (h : j ≠ i) :
    (pool.resume tokens i).cutsLeft cancels j = pool.cutsLeft cancels j := by
  obtain ⟨htasks, hseen⟩ := pool.resume_other tokens h
  rw [cutsLeft, cutsLeft, htasks, hseen]

/-- A routine that waits prints the first cut that is left of it when it is resumed. -/
theorem resume_cuts {i : Nat} (hwaits : pool.waits i = true)
    (h : tokens.Follows i (cancels i) (pool.resume tokens i).log) :
    ∃ cut, events (pool.resume tokens i).log = events pool.log ++ eventsOf i cut ∧
      pool.cutsLeft cancels i = cut :: (pool.resume tokens i).cutsLeft cancels i := by
  obtain ⟨p, hp⟩ := (pool.waits_iff i).mp hwaits
  obtain ⟨hself, hlog⟩ := resume_self tokens hp
  rw [hlog] at h
  obtain ⟨cut, hevents, hcuts⟩ := Routine.resume_cuts h
  refine ⟨cut, by rw [hlog, hevents], ?_⟩
  simp only [cutsLeft, hp, hself, hlog]
  exact hcuts

theorem waits_other {i j : Nat} (h : j ≠ i) :
    (pool.resume tokens i).waits j = pool.waits j := by
  rw [waits, waits, (pool.resume_other tokens h).1]

end Pool

namespace Fifo

variable {α : Type} {tokens : Tokens} {queue order : List Nat} {pool : Pool α}

/-- With a queue the events come in rounds. -/
theorem events_eq (h : Fifo tokens queue pool order) {cancels : Nat → List Sight → Bool}
    (hnodup : queue.Nodup) (hwaits : ∀ i ∈ queue, pool.waits i = true)
    (hfollows : ∀ i ∈ queue, tokens.Follows i (cancels i) (pool.resumeAll tokens order).log) :
    events (pool.resumeAll tokens order).log = events pool.log ++
      Parts.roundRobin (queue.map fun i => (i, pool.cutsLeft cancels i)) := by
  induction h with
  | empty pool => simp [Pool.resumeAll, Parts.roundRobin, Parts.longest]
  | @turn i queue order pool h ih =>
      obtain ⟨hi, hnodup⟩ := List.nodup_cons.mp hnodup
      obtain ⟨hwaitsi, hwaits⟩ := List.forall_mem_cons.mp hwaits
      have hne : ∀ j ∈ queue, j ≠ i := fun j hj hji => hi (hji ▸ hj)
      have hturn : tokens.Follows i (cancels i) (pool.resume tokens i).log :=
        (hfollows i List.mem_cons_self).front
          ((pool.resume tokens i).resumeAll_isPrefix tokens order)
      obtain ⟨cut, hevents, hcuts⟩ := Pool.resume_cuts hwaitsi hturn
      have hothers : (queue.map fun j => (j, (pool.resume tokens i).cutsLeft cancels j)) =
          queue.map fun j => (j, pool.cutsLeft cancels j) :=
        List.map_congr_left fun j hj => by rw [Pool.cutsLeft_other (hne j hj)]
      have hwaits' : ∀ j ∈ queue, (pool.resume tokens i).waits j = true := fun j hj =>
        (Pool.waits_other (hne j hj)).trans (hwaits j hj)
      obtain ⟨hfollowsi, hfollows⟩ := List.forall_mem_cons.mp hfollows
      -- the turn prints the cut that stands first in the rounds; the rest goes to the end
      rw [List.map_cons, hcuts, Parts.roundRobin_rotate, ← List.append_assoc, ← hevents, ← hothers]
      cases hagain : (pool.resume tokens i).waits i with
      | true =>
          rw [hagain, if_pos rfl, List.map_append] at ih
          refine ih ?_ ?_ ?_
          · exact List.nodup_append.mpr ⟨hnodup, by simp, by simpa using hne⟩
          · simpa [or_imp, forall_and] using ⟨hwaits', hagain⟩
          · simpa [or_imp, forall_and] using ⟨hfollows, hfollowsi⟩
      | false =>
          rw [hagain, if_neg (by decide), List.append_nil] at ih
          rw [Pool.cutsLeft_of_not_waits hagain, Parts.roundRobin_drop]
          exact ih hnodup hwaits' hfollows

/-- Whatever was in the queue has ended when the queue is empty. -/
theorem ended (h : Fifo tokens queue pool order) {i : Nat}
    (hi : (i ∈ queue ∧ i < pool.tasks.length) ∨ ∃ value, pool.tasks[i]? = some (.inl value)) :
    ∃ value, (pool.resumeAll tokens order).tasks[i]? = some (.inl value) := by
  induction h with
  | empty pool => simpa [Pool.resumeAll] using hi
  | @turn j queue order pool h ih =>
      apply ih
      rw [Pool.length_resume]
      obtain ⟨hmem, hlength⟩ | ⟨value, hvalue⟩ := hi
      · cases hagain : (pool.resume tokens j).waits i with
        | true =>
            refine Or.inl ⟨?_, hlength⟩
            rw [List.mem_append]
            obtain rfl | hmem := List.mem_cons.mp hmem
            · exact Or.inr (by simp [hagain])
            · exact Or.inl hmem
        | false =>
            refine Or.inr ?_
            have hthere : i < (pool.resume tokens j).tasks.length := by
              rwa [Pool.length_resume]
            have htask := List.getElem?_eq_getElem hthere
            unfold Pool.waits at hagain
            rw [htask] at hagain ⊢
            cases htaken : (pool.resume tokens j).tasks[i] with
            | inl value => exact ⟨value, rfl⟩
            | inr p => simp [htaken] at hagain
      · exact Or.inr ⟨value, Pool.resume_ended tokens hvalue j⟩

end Fifo

namespace Pool

variable {α : Type} (tokens : Tokens)

/-- How far a routine of a pool still has to go. -/
def toGo (pool : Pool α) (i : Nat) : Nat :=
  match pool.tasks[i]? with
  | some (.inr p) => p.height + 1
  | _ => 0

/-- A turn leaves less of a routine. -/
theorem toGo_resume_self (pool : Pool α) (i : Nat) :
    (pool.resume tokens i).toGo i ≤ pool.toGo i - 1 := by
  obtain ⟨hnone, hpool⟩ | ⟨p, hp, -⟩ := pool.resume_cases tokens i
  · rw [hpool]
    unfold toGo
    split
    · rename_i p hp
      exact absurd hp (hnone p)
    · exact Nat.zero_le _
  · simp only [toGo, hp, (resume_self tokens hp).1]
    cases hstage : (p.resume tokens i pool.log).1 with
    | inl value => exact Nat.zero_le _
    | inr q =>
        have hless := p.resume_height_lt tokens i hstage
        dsimp only
        omega

theorem toGo_resume_le (pool : Pool α) (i j : Nat) :
    (pool.resume tokens i).toGo j ≤ pool.toGo j := by
  by_cases hj : j = i
  · subst hj
    exact (pool.toGo_resume_self tokens j).trans (Nat.sub_le _ _)
  · rw [toGo, (pool.resume_other tokens hj).1]
    rfl

theorem toGo_pos_of_waits {pool : Pool α} {i : Nat} (h : pool.waits i = true) :
    0 < pool.toGo i := by
  obtain ⟨p, hp⟩ := (pool.waits_iff i).mp h
  simp [toGo, hp]

end Pool

/-- A queue always comes to an end, because a turn shortens it or leaves less of its routines. -/
theorem Fifo.exists {α : Type} (tokens : Tokens) (queue : List Nat) (pool : Pool α) :
    ∃ order, Fifo tokens queue pool order := by
  induction hn : (queue.map fun j => pool.toGo j + 1).sum using Nat.strongRecOn
    generalizing queue pool with
  | ind n ih =>
      cases queue with
      | nil => exact ⟨[], .empty pool⟩
      | cons i queue =>
          have hself := pool.toGo_resume_self tokens i
          have hrest : (queue.map fun j => (pool.resume tokens i).toGo j + 1).sum ≤
              (queue.map fun j => pool.toGo j + 1).sum :=
            List.sum_le_sum fun j _ => Nat.succ_le_succ (pool.toGo_resume_le tokens i j)
          rw [List.map_cons, List.sum_cons] at hn
          have hless : ((queue ++ if (pool.resume tokens i).waits i then [i] else []).map
              fun j => (pool.resume tokens i).toGo j + 1).sum < n := by
            rw [List.map_append, List.sum_append]
            split
            · rename_i hagain
              have hpos := Pool.toGo_pos_of_waits hagain
              simp only [List.map_singleton, List.sum_singleton]
              omega
            · simp only [List.map_nil, List.sum_nil]
              omega
          obtain ⟨order, horder⟩ := ih _ hless _ _ rfl
          exact ⟨i :: order, .turn horder⟩

/-! ### Routines that start together -/

namespace Pool

variable {α : Type} (routines : List (Routine α))

theorem start_task {i : Nat} {p : Routine α} (h : routines[i]? = some p) :
    (start routines).tasks[i]? = some (.inr p) := by
  simp [start, h]

theorem start_waits {i : Nat} (h : i ∈ List.range routines.length) :
    (start routines).waits i = true :=
  (waits_iff _ i).mpr
    ⟨_, start_task routines (List.getElem?_eq_getElem (List.mem_range.mp h))⟩

theorem start_cutsLeft (cancels : Nat → List Sight → Bool) :
    (List.range routines.length).map (fun i => (i, (start routines).cutsLeft cancels i)) =
      routines.zipIdx.map fun (p, i) => (i, p.cuts (cancels i) []) := by
  apply List.ext_getElem
  · simp
  · intro i hi _
    have hlength : i < routines.length := by simpa using hi
    simp [cutsLeft, cutsFrom, start, hlength]

end Pool

end ToyC
