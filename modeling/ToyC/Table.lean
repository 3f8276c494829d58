/-!
Tables from names to values that remember the order in which names arrived.
Storing under a name that is present keeps its place; a name that was erased and
stored again goes to the end.
-/

namespace ToyC

/-- Names with their values, oldest first. -/
abbrev Table (α : Type) := List (String × α)

namespace Table

variable {α : Type}

def get? (name : String) : Table α → Option α
  | [] => none
  | (key, value) :: rest => if key = name then some value else get? name rest

def contains (name : String) (table : Table α) : Bool :=
  (get? name table).isSome

/-- Store a value: in place if the name is present, at the end otherwise. -/
def insert (name : String) (value : α) : Table α → Table α
  | [] => [(name, value)]
  | (key, old) :: rest =>
    if key = name then (key, value) :: rest else (key, old) :: insert name value rest

def erase (name : String) : Table α → Table α
  | [] => []
  | (key, value) :: rest => if key = name then rest else (key, value) :: erase name rest

def keys (table : Table α) : List String :=
  table.map (·.1)

/-- The table in which each pair is stored in turn. -/
def ofList (pairs : List (String × α)) : Table α :=
  pairs.foldl (fun table pair => insert pair.1 pair.2 table) []

theorem get?_insert_self (name : String) (value : α) (table : Table α) :
    get? name (insert name value table) = some value := by
  induction table with
  | nil => simp [insert, get?]
  | cons entry rest ih =>
    obtain ⟨key, old⟩ := entry
    by_cases h : key = name <;> simp [insert, get?, h, ih]

theorem get?_insert_of_ne {name other : String} (h : other ≠ name) (value : α)
    (table : Table α) : get? other (insert name value table) = get? other table := by
  induction table with
  | nil => simp [insert, get?, Ne.symm h]
  | cons entry rest ih =>
    obtain ⟨key, old⟩ := entry
    by_cases hk : key = name
    · subst hk; simp [insert, get?, Ne.symm h]
    · by_cases ho : key = other
      · subst ho; simp [insert, get?, hk]
      · simp [insert, get?, hk, ho, ih]

end Table

end ToyC
