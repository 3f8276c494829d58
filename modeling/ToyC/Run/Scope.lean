import ToyC.Number
import ToyC.Table

/-!
Scopes: which names stand for which numbers at a place in a program. A scope is the
chain of its own bindings and those around it, the innermost first. A declaration
binds in the innermost; reading and assigning reach for the nearest binding.

A chain may have any length: where the host searches it by recursion, its stack is
taken as unlimited.
-/

namespace ToyC

abbrev Bindings := Table Number

/-- A chain of bindings, the innermost first. -/
abbrev Scope := List Bindings

namespace Scope

def child (scope : Scope) : Scope :=
  [] :: scope

def parent (scope : Scope) : Scope :=
  scope.tail

def define (name : String) (value : Number) : Scope → Scope
  | [] => [Table.insert name value []]
  | inner :: outer => Table.insert name value inner :: outer

def get? (name : String) : Scope → Option Number
  | [] => none
  | inner :: outer =>
    match Table.get? name inner with
    | some value => some value
    | none => get? name outer

def has (name : String) (scope : Scope) : Bool :=
  (get? name scope).isSome

/-- Change the nearest binding of a name; without one nothing changes. -/
def set (name : String) (value : Number) : Scope → Scope
  | [] => []
  | inner :: outer =>
    if Table.contains name inner then Table.insert name value inner :: outer
    else inner :: set name value outer

theorem length_set (name : String) (value : Number) (scope : Scope) :
    (set name value scope).length = scope.length := by
  induction scope with
  | nil => rfl
  | cons inner outer ih =>
    simp only [set]
    split
    · rfl
    · simp [ih]

theorem get?_define_self (name : String) (value : Number) (scope : Scope) :
    get? name (define name value scope) = some value := by
  cases scope <;> simp [define, get?, Table.get?_insert_self]

theorem get?_define_of_ne {name other : String} (h : other ≠ name) (value : Number)
    (scope : Scope) : get? other (define name value scope) = get? other scope := by
  cases scope with
  | nil => simp [define, get?, Table.insert, Table.get?, Ne.symm h]
  | cons inner outer => simp [define, get?, Table.get?_insert_of_ne h]

/-- Where a name is bound, setting it is seen. -/
theorem get?_set_self {name : String} {scope : Scope} (h : has name scope = true)
    (value : Number) : get? name (set name value scope) = some value := by
  induction scope with
  | nil => simp [has, get?] at h
  | cons inner outer ih =>
    cases hi : Table.get? name inner with
    | some old => simp [set, Table.contains, hi, get?, Table.get?_insert_self]
    | none =>
      have ho : has name outer = true := by simpa [has, get?, hi] using h
      simp [set, Table.contains, hi, get?, ih ho]

theorem get?_set_of_ne {name other : String} (h : other ≠ name) (value : Number)
    (scope : Scope) : get? other (set name value scope) = get? other scope := by
  induction scope with
  | nil => rfl
  | cons inner outer ih =>
    simp only [set]
    split
    · simp [get?, Table.get?_insert_of_ne h]
    · simp [get?, ih]

end Scope

end ToyC
