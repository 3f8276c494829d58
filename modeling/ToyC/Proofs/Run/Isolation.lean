import ToyC.Proofs.Run.Cancellation
import ToyC.Proofs.Run.RoundRobin

/-!
Programs that share one thread. In any order of turns each does what it does alone,
up to its cancellation, and no event belongs to anyone else. The scheduler of the
runs that share a thread is one of the orders, that of a queue.
-/

namespace ToyC

/-- What a routine has shown among others, and its value, beside the same routine alone. If it was
not cancelled at any moment of the log, the two are the same. If it was, it has printed what it
prints alone before its first check after the moment, and then that it was cancelled; without
such a check the two are the same again. -/
def Isolated (tokens : Tokens) (log : List Entry) (i : Nat) (p : Routine RunResult)
    (result : RunResult) : Prop :=
  let alone := p.observe {}
  let shown := Sight.chunks (seenBy i log)
  match tokens.moment? i log with
  | none => shown = alone.1.chunks.toList ∧ result = alone.2
  | some m =>
    let k := Sight.checks (seenBy i (log.take m))
    (k < alone.1.checks →
      shown = Sight.chunks (Sight.before k p.sights) ++ ["^C\n"] ∧ result = .ok none) ∧
    (alone.1.checks ≤ k → shown = alone.1.chunks.toList ∧ result = alone.2)

theorem isolated_of_heeds {tokens : Tokens} {routines : List (Routine RunResult)}
    {order : List Nat} {i : Nat} {p : Routine RunResult} (hp : routines[i]? = some p)
    (hheeds : p.Heeds (fun result => result = .ok none) ["^C\n"]) {result : RunResult}
    (hresult : ((Pool.start routines).resumeAll tokens order).tasks[i]? = some (.inl result)) :
    Isolated tokens ((Pool.start routines).resumeAll tokens order).log i p result := by
  let log := ((Pool.start routines).resumeAll tokens order).log
  obtain ⟨task, htask, hlive⟩ := Pool.resumeAll_live (tokens.plan_follows i log)
    (Pool.start_task routines hp)
  obtain rfl : task = .inl result := Option.some.inj (htask.symm.trans hresult)
  obtain ⟨hchunks, -, hvalue⟩ := Routine.observe_eq_live (tokens.plan i log) p
  have hshown : Sight.chunks (seenBy i log) = (p.observe (tokens.plan i log)).1.chunks.toList ∧
      result = (p.observe (tokens.plan i log)).2 := by
    rw [hchunks, hvalue]
    exact ⟨congrArg (Sight.chunks ·.1) hlive, congrArg Prod.snd hlive⟩
  unfold Isolated
  dsimp only
  unfold Tokens.plan at hshown
  cases hmoment : tokens.moment? i log with
  | none =>
      rw [hmoment] at hshown
      exact hshown
  | some m =>
      rw [hmoment] at hshown
      obtain ⟨hshown, hgiven⟩ := hshown
      obtain ⟨hearly, hlate⟩ := hheeds.observe_cancelled (Sight.checks (seenBy i (log.take m)))
      refine ⟨fun hk => ?_, fun hk => ?_⟩
      · obtain ⟨hc, -, hv⟩ := hearly hk
        exact ⟨hshown.trans hc, hgiven.trans hv⟩
      · obtain ⟨hc, -, hv⟩ := hlate hk
        exact ⟨hshown.trans (congrArg Array.toList hc), hgiven.trans hv⟩

/-- Programs that are resumed in any order from one pause to the next. Every entry of the log
belongs to a program. A program that has had turns enough has ended, and one that has ended has
done what it does alone. If the order is that of a queue, every program ends, and the events are
the cuts of the programs alone, merged round by round; such an order exists. -/
theorem interleaving_isolated (programs : List (String × Options)) (tokens : Tokens)
    (order : List Nat) :
    let routines := programs.map fun (text, options) => runSource text options
    let final := (Pool.start routines).resumeAll tokens order
    (∀ e ∈ final.log, e.source < programs.length) ∧
    (∀ i p, routines[i]? = some p →
      (p.height < order.count i → ∃ result, final.tasks[i]? = some (.inl result)) ∧
      ∀ result, final.tasks[i]? = some (.inl result) → Isolated tokens final.log i p result) ∧
    (Fifo tokens (List.range programs.length) (Pool.start routines) order →
      (∀ i < programs.length, ∃ result, final.tasks[i]? = some (.inl result)) ∧
      events final.log = Parts.roundRobin
        (routines.zipIdx.map fun (p, i) => (i, p.cuts (tokens.plan i final.log).cancels []))) ∧
    ∃ order, Fifo tokens (List.range programs.length) (Pool.start routines) order := by
  intro routines final
  have hlength : (Pool.start routines).tasks.length = programs.length := by
    simp [Pool.start, routines]
  refine ⟨?_, fun i p hp => ⟨fun hmany => ?_, fun result hresult => ?_⟩, fun hfifo => ⟨?_, ?_⟩, ?_⟩
  · rw [← hlength]
    exact Pool.resumeAll_sources tokens _ (by simp [Pool.start]) order
  · exact Pool.resumeAll_ends tokens (Pool.start_task routines hp) hmany
  · obtain ⟨⟨text, options⟩, -, rfl⟩ := List.mem_map.mp (List.mem_of_getElem? hp)
    have hheeds : (runSource text options).Heeds (fun result => result = .ok none) ["^C\n"] :=
      .perform_bind _ (run_heeds _ options)
    exact isolated_of_heeds hp hheeds hresult
  · intro i hi
    refine hfifo.ended (Or.inl ⟨List.mem_range.mpr hi, ?_⟩)
    rwa [hlength]
  · have hroutines : programs.length = routines.length := by simp [routines]
    rw [hroutines] at hfifo
    have hevents := hfifo.events_eq List.nodup_range (fun i => Pool.start_waits routines)
      fun i _ => tokens.plan_follows i final.log
    rw [Pool.start_cutsLeft routines fun i => (tokens.plan i final.log).cancels] at hevents
    exact hevents
  · exact Fifo.exists tokens _ _

end ToyC
