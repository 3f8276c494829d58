import ToyC.Proofs.Table
import ToyC.Run.Scope

/-!
Assignments one by one. Which binding a name reaches depends on the scope that it is
assigned in, but the binding itself is known by its name and by how many scopes stand
around it, wherever it is reached from. So a list of assignments can be made again in any
scope: each binding ends with the number that it was given last, and no name comes or goes.
-/

namespace ToyC

/-- A number given to a binding. The binding is known by its name and by how many scopes stand
around the one that it belongs to. -/
structure Assigned where
  depth : Nat
  name : String
  value : Number

/-- The number that a binding is given last. -/
def Assigned.latest? (depth : Nat) (name : String) (log : List Assigned) : Option Number :=
  (log.filter fun a => a.depth = depth ∧ a.name = name).getLast?.map (·.value)

theorem Assigned.latest?_cons_self (a : Assigned) (rest : List Assigned) :
    latest? a.depth a.name (a :: rest) = some ((latest? a.depth a.name rest).getD a.value) := by
  simp only [latest?, List.filter_cons, and_self, decide_true, if_true, List.getLast?_cons,
    Option.map_some, Option.getD_map]

theorem Assigned.latest?_cons_of_ne {a : Assigned} {depth : Nat} {name : String}
    (h : ¬ (a.depth = depth ∧ a.name = name)) (rest : List Assigned) :
    latest? depth name (a :: rest) = latest? depth name rest := by
  simp only [latest?, List.filter_cons, h, decide_false, Bool.false_eq_true, if_false]

namespace Scope

variable {name : String} {scope : Scope} {a : Assigned} {log : List Assigned} {depth : Nat}

/-- How many scopes stand around the nearest that binds a name. -/
def binder? (name : String) : Scope → Option Nat
  | [] => none
  | inner :: outer =>
    if Table.contains name inner then some outer.length else binder? name outer

/-- The number of a binding. -/
def at? (depth : Nat) (name : String) : Scope → Option Number
  | [] => none
  | inner :: outer => if outer.length = depth then Table.get? name inner else at? depth name outer

/-- Make an assignment. -/
def put (a : Assigned) : Scope → Scope
  | [] => []
  | inner :: outer =>
    if outer.length = a.depth then Table.insert a.name a.value inner :: outer
    else inner :: put a outer

/-- Make assignments one after another. -/
def replay (log : List Assigned) (scope : Scope) : Scope :=
  log.foldl (fun s a => put a s) scope

/-! ### The binding that a name reaches -/

theorem isSome_binder? (name : String) (scope : Scope) :
    (binder? name scope).isSome = (get? name scope).isSome := by
  induction scope with
  | nil => rfl
  | cons inner outer ih =>
      cases hinner : Table.get? name inner with
      | some value => simp [binder?, get?, Table.contains, hinner]
      | none => simpa [binder?, get?, Table.contains, hinner] using ih

theorem binder?_lt (h : binder? name scope = some depth) : depth < scope.length := by
  induction scope with
  | nil => cases h
  | cons inner outer ih =>
      simp only [binder?] at h
      split at h
      · cases h
        exact Nat.lt_succ_self _
      · exact Nat.lt_succ_of_lt (ih h)

/-- A name stands for the number of the binding that it reaches. -/
theorem at?_binder? (h : binder? name scope = some depth) :
    at? depth name scope = get? name scope := by
  induction scope with
  | nil => cases h
  | cons inner outer ih =>
      cases hinner : Table.get? name inner with
      | some value =>
          have hdepth : outer.length = depth := by
            simpa [binder?, Table.contains, hinner] using h
          rw [at?, if_pos hdepth, get?, hinner]
      | none =>
          have houter : binder? name outer = some depth := by
            simpa [binder?, Table.contains, hinner] using h
          have hne : outer.length ≠ depth := Nat.ne_of_gt (binder?_lt houter)
          rw [at?, if_neg hne, get?, hinner, ih houter]

theorem set_eq_put (h : binder? name scope = some depth) (value : Number) :
    set name value scope = put ⟨depth, name, value⟩ scope := by
  induction scope with
  | nil => rfl
  | cons inner outer ih =>
      simp only [binder?] at h
      split at h
      · rename_i hinner
        cases h
        rw [set, if_pos hinner, put, if_pos rfl]
      · rename_i hinner
        have hne : outer.length ≠ depth := Nat.ne_of_gt (binder?_lt h)
        rw [set, if_neg hinner, put, if_neg hne, ih h]

/-! ### One assignment -/

theorem length_put (a : Assigned) (scope : Scope) : (put a scope).length = scope.length := by
  induction scope with
  | nil => rfl
  | cons inner outer ih =>
      simp only [put]
      split <;> simp [ih]

/-- A binding of a scope further inside is not there. -/
theorem put_of_length_le (h : scope.length ≤ a.depth) : put a scope = scope := by
  induction scope with
  | nil => rfl
  | cons inner outer ih =>
      simp only [List.length_cons] at h
      rw [put, if_neg (by omega), ih (by omega)]

theorem drop_put (a : Assigned) (n : Nat) (scope : Scope) :
    (put a scope).drop n = put a (scope.drop n) := by
  induction scope generalizing n with
  | nil => simp [put]
  | cons inner outer ih =>
      cases n with
      | zero => rfl
      | succ n =>
          simp only [put, List.drop_succ_cons]
          split
          · rename_i hdepth
            exact (put_of_length_le (by simp; omega)).symm
          · exact ih n

theorem at?_put_self (h : (at? a.depth a.name scope).isSome = true) :
    at? a.depth a.name (put a scope) = some a.value := by
  induction scope with
  | nil => cases h
  | cons inner outer ih =>
      simp only [put, at?] at h ⊢
      split
      · simp [at?, *, Table.get?_insert_self]
      · rename_i hdepth
        rw [if_neg hdepth] at h
        simp only [at?, length_put, if_neg hdepth, ih h]

/-- The other bindings keep their numbers. -/
theorem at?_put_of_ne (h : a.depth = depth → a.name ≠ name) (scope : Scope) :
    at? depth name (put a scope) = at? depth name scope := by
  induction scope with
  | nil => rfl
  | cons inner outer ih =>
      simp only [put]
      split
      · rename_i hdepth
        simp only [at?]
        split
        · rename_i hsame
          exact Table.get?_insert_of_ne (Ne.symm (h (hdepth.symm.trans hsame))) _ _
        · rfl
      · simp only [at?, length_put, ih]

theorem keys_put (h : (at? a.depth a.name scope).isSome = true) :
    (put a scope).map Table.keys = scope.map Table.keys := by
  induction scope with
  | nil => rfl
  | cons inner outer ih =>
      simp only [put, at?] at h ⊢
      split
      · rename_i hdepth
        rw [if_pos hdepth] at h
        have hbound : a.name ∈ Table.keys inner := by
          rw [← Decidable.not_not (p := a.name ∈ _), ← Table.get?_eq_none_iff]
          rw [Option.isSome_iff_ne_none] at h
          exact h
        rw [List.map_cons, Table.keys_insert, if_pos hbound, List.map_cons]
      · rename_i hdepth
        rw [if_neg hdepth] at h
        simp only [List.map_cons, ih h]

/-! ### Assignments one after another -/

theorem replay_append (log more : List Assigned) (scope : Scope) :
    replay (log ++ more) scope = replay more (replay log scope) :=
  List.foldl_append

theorem drop_replay (log : List Assigned) (n : Nat) (scope : Scope) :
    (replay log scope).drop n = replay log (scope.drop n) := by
  induction log generalizing scope with
  | nil => rfl
  | cons a rest ih => exact (ih (put a scope)).trans (congrArg (replay rest) (drop_put a n scope))

theorem at?_replay_of_not_assigned (h : ∀ a ∈ log, a.name ≠ name) (depth : Nat) (scope : Scope) :
    at? depth name (replay log scope) = at? depth name scope := by
  induction log generalizing scope with
  | nil => rfl
  | cons a rest ih =>
      obtain ⟨ha, hrest⟩ := List.forall_mem_cons.mp h
      exact (ih hrest (put a scope)).trans (at?_put_of_ne (fun _ => ha) scope)

/-- A binding has the number that it is given last. -/
theorem at?_replay {old : Number} (h : at? depth name scope = some old) (log : List Assigned) :
    at? depth name (replay log scope) = some ((Assigned.latest? depth name log).getD old) := by
  induction log generalizing scope old with
  | nil => exact h
  | cons a rest ih =>
      by_cases hsame : a.depth = depth ∧ a.name = name
      · obtain ⟨rfl, rfl⟩ := hsame
        have hput := at?_put_self (Option.isSome_of_eq_some h)
        rw [Assigned.latest?_cons_self]
        exact ih hput
      · have hput : at? depth name (put a scope) = some old :=
          (at?_put_of_ne (fun hdepth hname => hsame ⟨hdepth, hname⟩) scope).trans h
        rw [Assigned.latest?_cons_of_ne hsame]
        exact ih hput

end Scope

end ToyC
