import ToyC.Proofs.Run.RoundRobin

/-!
The scheduler of runs that share a thread. Its tasks are the routines of a pool that
still wait, in the order of a queue, and it cancels a routine by the count of the
events.
-/

namespace ToyC

/-- A routine is cancelled once so many events have been logged. -/
def Tokens.counting (limits : List (Option Int)) : Tokens where
  cancelled i log := cancelledBy limits[i]?.join (events log).length
  stays i log more h := by
    simp only [cancelledBy, Bool.and_eq_true, decide_eq_true_eq, Option.any_eq_true] at h ⊢
    obtain ⟨hpos, limit, hlimit, hle⟩ := h
    rw [events_append, List.length_append]
    exact ⟨by omega, limit, hlimit, by omega⟩

/-- A turn of the scheduler is a turn in a pool. -/
theorem turn_eq {α : Type} (limits : List (Option Int)) (i : Nat) (p : Routine α)
    (log : List Entry) : turn i limits[i]?.join p (events log).toArray =
      ((p.resume (.counting limits) i log).1,
        (events (p.resume (.counting limits) i log).2).toArray) := by
  induction p generalizing log with
  | done value => rfl
  | act action rest ih =>
      cases action with
      | pause => rfl
      | print chunk =>
          have hpush : (events log).toArray.push { source := i, chunk } =
              (events (log ++ [{ source := i, sight := .chunk chunk }])).toArray := by
            simp [events, Sight.text?]
          rw [turn, hpush]
          exact ih () _
      | _ => exact ih () log
  | check answer ih =>
      have hcheck : events (log ++ [{ source := i, sight := .check }]) = events log := by
        simp [events, Sight.text?]
      have hrest := ih ((Tokens.counting limits).cancelled i log)
        (log ++ [{ source := i, sight := .check }])
      rw [hcheck] at hrest
      exact hrest

/-- The task of the scheduler for a routine that waits in a pool. -/
def Pool.task? {α : Type} (limits : List (Option Int)) (pool : Pool α) (i : Nat) :
    Option (Task α) :=
  match pool.tasks[i]? with
  | some (.inr routine) => some { source := i, cancelAfter := limits[i]?.join, routine }
  | _ => none

theorem Pool.task?_other {α : Type} {tokens : Tokens} (limits : List (Option Int)) (pool : Pool α)
    {i j : Nat} (h : j ≠ i) : (pool.resume tokens i).task? limits j = pool.task? limits j := by
  rw [task?, task?, (pool.resume_other tokens h).1]

/-- The scheduler gives turns in the order of the queue. -/
theorem Fifo.takeTurns_eq {α : Type} {limits : List (Option Int)} {queue order : List Nat}
    {pool : Pool α} (h : Fifo (.counting limits) queue pool order) (hnodup : queue.Nodup)
    (hwaits : ∀ i ∈ queue, pool.waits i = true) {results : List (Nat × α)}
    (hresults : ∀ i value, (i, value) ∈ results ↔ pool.tasks[i]? = some (.inl value)) :
    let final := pool.resumeAll (.counting limits) order
    ∃ ended, takeTurns (queue.filterMap (pool.task? limits)) results (events pool.log).toArray =
        (ended, (events final.log).toArray) ∧
      ∀ i value, (i, value) ∈ ended ↔ final.tasks[i]? = some (.inl value) := by
  generalize htokens : Tokens.counting limits = tokens at h
  induction h generalizing results with
  | empty pool => exact ⟨results, by simp [takeTurns, Pool.resumeAll], hresults⟩
  | @turn i queue order pool h ih =>
      subst htokens
      obtain ⟨hi, hnodup⟩ := List.nodup_cons.mp hnodup
      obtain ⟨hwaitsi, hwaits⟩ := List.forall_mem_cons.mp hwaits
      have hne : ∀ j ∈ queue, j ≠ i := fun j hj hji => hi (hji ▸ hj)
      have hwaits' : ∀ j ∈ queue, (pool.resume (.counting limits) i).waits j = true :=
        fun j hj => (Pool.waits_other (hne j hj)).trans (hwaits j hj)
      have htasks : queue.filterMap ((pool.resume (.counting limits) i).task? limits) =
          queue.filterMap (pool.task? limits) :=
        List.filterMap_congr fun j hj => pool.task?_other limits (hne j hj)
      obtain ⟨p, hp⟩ := (pool.waits_iff i).mp hwaitsi
      have htask : pool.task? limits i =
          some { source := i, cancelAfter := limits[i]?.join, routine := p } := by
        simp [Pool.task?, hp]
      obtain ⟨hself, hlog⟩ := Pool.resume_self (.counting limits) hp
      have hfresh : ∀ value, (i, value) ∉ results := by
        intro value hmem
        rw [hresults, hp] at hmem
        cases hmem
      rw [List.filterMap_cons_some htask, takeTurns]
      dsimp only
      -- the scheduler looks at what the turn leaves, as the queue does
      split
      · rename_i value events' hended
        rw [turn_eq] at hended
        obtain ⟨hvalue, rfl⟩ := Prod.ext_iff.mp hended
        dsimp only at hvalue
        have hdone : (pool.resume (.counting limits) i).waits i = false := by
          simp [Pool.waits, hself, hvalue]
        rw [hdone, if_neg (by decide), List.append_nil] at ih
        rw [← htasks, ← hlog]
        refine ih hnodup hwaits' ?_
        intro j given
        by_cases hj : j = i
        · subst hj
          simp [hself, hvalue, hfresh, eq_comm]
        · rw [(pool.resume_other _ hj).1, ← hresults]
          simp [hj]
      · rename_i q events' hpaused
        rw [turn_eq] at hpaused
        obtain ⟨hq, rfl⟩ := Prod.ext_iff.mp hpaused
        dsimp only at hq
        have hagain : (pool.resume (.counting limits) i).waits i = true := by
          simp [Pool.waits, hself, hq]
        have hnext : (pool.resume (.counting limits) i).task? limits i =
            some { source := i, cancelAfter := limits[i]?.join, routine := q } := by
          simp [Pool.task?, hself, hq]
        rw [hagain, if_pos rfl, List.filterMap_append, List.filterMap_cons_some hnext,
          List.filterMap_nil] at ih
        rw [← htasks, ← hlog]
        refine ih ?_ ?_ ?_
        · exact List.nodup_append.mpr ⟨hnodup, by simp, by simpa using hne⟩
        · simpa [or_imp, forall_and] using ⟨hwaits', hagain⟩
        · intro j given
          by_cases hj : j = i
          · subst hj
            simp [hself, hq, hfresh]
          · rw [(pool.resume_other _ hj).1, ← hresults]

/-- The tasks that the scheduler starts with. -/
theorem tasks_start {α : Type} (routines : List (Routine α × Option Int)) :
    (List.range (routines.map (·.1)).length).filterMap
        ((Pool.start (routines.map (·.1))).task? (routines.map (·.2))) =
      routines.zipIdx.map fun ((routine, cancelAfter), source) =>
        { source, cancelAfter, routine : Task α } := by
  have hmap : (List.range (routines.map (·.1)).length).map
      ((Pool.start (routines.map (·.1))).task? (routines.map (·.2))) =
        (routines.zipIdx.map fun ((routine, cancelAfter), source) =>
          ({ source, cancelAfter, routine } : Task α)).map some := by
    apply List.ext_getElem
    · simp
    · intro i hi _
      have hlength : i < routines.length := by simpa using hi
      simp [Pool.task?, Pool.start, hlength]
  have hjoined := congrArg (List.filterMap id) hmap
  simpa [List.filterMap_map, Function.comp_def] using hjoined

/-- The scheduler gives routines that start together the turns of a queue. -/
theorem runTogether_eq {α : Type} (routines : List (Routine α × Option Int)) {order : List Nat}
    (h : Fifo (.counting (routines.map (·.2))) (List.range (routines.map (·.1)).length)
      (Pool.start (routines.map (·.1))) order) :
    let final := (Pool.start (routines.map (·.1))).resumeAll
      (.counting (routines.map (·.2))) order
    runTogether routines = (final.tasks.map Sum.getLeft?, (events final.log).toArray) := by
  intro final
  have hfresh : ∀ i value, (i, value) ∈ ([] : List (Nat × α)) ↔
      (Pool.start (routines.map (·.1))).tasks[i]? = some (.inl value) := by
    simp [Pool.start]
  obtain ⟨ended, hturns, hended⟩ := h.takeTurns_eq List.nodup_range
    (fun i => Pool.start_waits (routines.map (·.1))) hfresh
  rw [tasks_start] at hturns
  have hlength : final.tasks.length = routines.length := by
    rw [Pool.length_resumeAll]
    simp [Pool.start]
  have hresults : (routines.zipIdx.map fun numbered =>
      (ended.find? (·.1 = numbered.2)).map (·.2)) = final.tasks.map Sum.getLeft? := by
    apply List.ext_getElem?
    intro i
    by_cases hi : i < routines.length
    · obtain ⟨value, hvalue⟩ :=
        h.ended (Or.inl ⟨by simpa using hi, by simpa [Pool.start] using hi⟩)
      have hfind : ended.find? (·.1 = i) = some (i, value) := by
        have hthere := (hended i value).mpr hvalue
        cases hfound : ended.find? (·.1 = i) with
        | none => simpa using List.find?_eq_none.mp hfound _ hthere
        | some pair =>
            obtain ⟨source, given⟩ := pair
            obtain rfl : source = i := by simpa using List.find?_some hfound
            have hgiven := (hended source given).mp (List.mem_of_find?_eq_some hfound)
            obtain rfl : given = value := by
              simpa using hgiven.symm.trans hvalue
            rfl
      simp [hi, hfind, show final.tasks[i]? = some (.inl value) from hvalue]
    · simp [hi, hlength]
  let tasks : List (Task α) := routines.zipIdx.map fun numbered =>
    { source := numbered.2, cancelAfter := numbered.1.2, routine := numbered.1.1 }
  let turns := takeTurns tasks [] #[]
  have hrun : runTogether routines = (routines.zipIdx.map fun numbered =>
      (turns.1.find? (·.1 = numbered.2)).map (·.2), turns.2) := rfl
  have hturns : turns = (ended, (events final.log).toArray) := hturns
  rw [hrun, hturns, hresults]

end ToyC
