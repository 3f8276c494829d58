import ToyC.Table

/-!
What storing and erasing do to the names of a table. Storing under a present
name keeps the list of names, storing under another puts it last, and erasing
only takes entries away, so names that are distinct stay distinct and the erased
one is gone.
-/

namespace ToyC.Table

variable {α : Type}

theorem mem_of_get?_eq_some {name : String} {value : α} {table : Table α}
    (h : get? name table = some value) : (name, value) ∈ table := by
  induction table with
  | nil => cases h
  | cons entry rest ih =>
      obtain ⟨key, old⟩ := entry
      simp only [get?] at h
      split at h
      · rename_i heq
        cases h
        rw [heq]
        exact List.mem_cons_self
      · exact List.mem_cons_of_mem _ (ih h)

theorem mem_insert {name : String} {value : α} {table : Table α} {entry : String × α}
    (h : entry ∈ insert name value table) : entry = (name, value) ∨ entry ∈ table := by
  induction table with
  | nil => exact Or.inl (List.mem_singleton.mp h)
  | cons first rest ih =>
      obtain ⟨key, old⟩ := first
      simp only [insert] at h
      split at h
      · rename_i heq
        rcases List.mem_cons.mp h with rfl | hrest
        · exact Or.inl (by rw [heq])
        · exact Or.inr (List.mem_cons_of_mem _ hrest)
      · rcases List.mem_cons.mp h with rfl | hrest
        · exact Or.inr List.mem_cons_self
        · rcases ih hrest with hnew | hold
          · exact Or.inl hnew
          · exact Or.inr (List.mem_cons_of_mem _ hold)

/-- A name that is stored keeps its place, and a new one goes to the end. -/
theorem keys_insert (name : String) (value : α) (table : Table α) :
    keys (insert name value table) =
      if name ∈ keys table then keys table else keys table ++ [name] := by
  induction table with
  | nil => rfl
  | cons entry rest ih =>
      obtain ⟨key, old⟩ := entry
      simp only [keys, insert, List.map_cons, List.mem_cons] at ih ⊢
      by_cases h : key = name
      · simp [h]
      · simp only [h, Ne.symm h, if_false, false_or, List.map_cons, ih]
        split <;> rename_i hmem <;> simp [hmem]

theorem keys_nodup_insert {table : Table α} (h : (keys table).Nodup) (name : String)
    (value : α) : (keys (insert name value table)).Nodup := by
  rw [keys_insert]
  split
  · exact h
  · rename_i hnew
    rw [List.nodup_append]
    refine ⟨h, by simp, ?_⟩
    intro a ha b hb
    rw [List.mem_singleton.mp hb]
    rintro rfl
    exact hnew ha

theorem erase_sublist (name : String) (table : Table α) :
    (erase name table).Sublist table := by
  induction table with
  | nil => exact List.Sublist.slnil
  | cons entry rest ih =>
      obtain ⟨key, old⟩ := entry
      simp only [erase]
      split
      · exact List.sublist_cons_self _ _
      · exact ih.cons_cons _

theorem keys_nodup_erase {table : Table α} (h : (keys table).Nodup) (name : String) :
    (keys (erase name table)).Nodup :=
  h.sublist ((erase_sublist name table).map _)

theorem get?_erase_of_ne {name other : String} (h : other ≠ name) (table : Table α) :
    get? other (erase name table) = get? other table := by
  induction table with
  | nil => rfl
  | cons entry rest ih =>
      obtain ⟨key, old⟩ := entry
      simp only [erase]
      split
      · rename_i heq
        simp [get?, heq, Ne.symm h]
      · simp only [get?, ih]

theorem get?_eq_none_iff {name : String} {table : Table α} :
    get? name table = none ↔ name ∉ keys table := by
  induction table with
  | nil => simp [get?, keys]
  | cons entry rest ih =>
      obtain ⟨key, value⟩ := entry
      simp only [keys, List.map_cons, List.mem_cons, not_or] at ih ⊢
      by_cases h : key = name
      · simp [get?, h]
      · simp [get?, h, Ne.symm h, ih]

theorem keys_erase (name : String) (table : Table α) :
    keys (erase name table) = (keys table).erase name := by
  induction table with
  | nil => rfl
  | cons entry rest ih =>
      obtain ⟨key, value⟩ := entry
      simp only [keys, erase, List.map_cons] at ih ⊢
      by_cases h : key = name
      · simp [h]
      · rw [if_neg h, List.map_cons, ih, List.erase_cons_tail (by simpa using h)]

/-- Where names are distinct, an erased name is gone. -/
theorem get?_erase_self {table : Table α} (h : (keys table).Nodup) (name : String) :
    get? name (erase name table) = none := by
  rw [get?_eq_none_iff, keys_erase]
  exact h.not_mem_erase

theorem insert_of_not_mem {name : String} {table : Table α} (h : name ∉ keys table) (value : α) :
    insert name value table = table ++ [(name, value)] := by
  induction table with
  | nil => rfl
  | cons entry rest ih =>
      obtain ⟨key, old⟩ := entry
      simp only [keys, List.map_cons, List.mem_cons, not_or] at h ih
      rw [insert, if_neg (Ne.symm h.1), ih h.2]
      rfl

/-- A new name that is erased again leaves the table as it was. -/
theorem erase_insert {name : String} {table : Table α} (h : name ∉ keys table) (value : α) :
    erase name (insert name value table) = table := by
  induction table with
  | nil => simp [insert, erase]
  | cons entry rest ih =>
      obtain ⟨key, old⟩ := entry
      simp only [keys, List.map_cons, List.mem_cons, not_or] at h ih
      rw [insert, if_neg (Ne.symm h.1), erase, if_neg (Ne.symm h.1), ih h.2]

/-- Of two values that are stored under one name, the later one is left. -/
theorem insert_insert (name : String) (first second : α) (table : Table α) :
    insert name second (insert name first table) = insert name second table := by
  induction table with
  | nil => simp [insert]
  | cons entry rest ih =>
      obtain ⟨key, old⟩ := entry
      by_cases h : key = name
      · simp [insert, h]
      · rw [insert, if_neg h, insert, if_neg h, ih, insert, if_neg h]

/-- Storing what is there already changes nothing. -/
theorem insert_get? {name : String} {value : α} {table : Table α}
    (h : get? name table = some value) : insert name value table = table := by
  induction table with
  | nil => cases h
  | cons entry rest ih =>
      obtain ⟨key, old⟩ := entry
      rw [get?] at h
      by_cases hkey : key = name
      · rw [if_pos hkey] at h
        cases h
        rw [insert, if_pos hkey]
      · rw [if_neg hkey] at h
        rw [insert, if_neg hkey, ih h]

/-- Pairs under distinct names are stored as they come. -/
theorem ofList_of_nodup {pairs : List (String × α)} (h : (pairs.map (·.1)).Nodup) :
    ofList pairs = pairs := by
  have hfold : ∀ (rest : List (String × α)) (table : Table α),
      (keys table ++ rest.map (·.1)).Nodup →
      rest.foldl (fun table pair => insert pair.1 pair.2 table) table = table ++ rest := by
    intro rest
    induction rest with
    | nil => intro table _; rw [List.foldl_nil, List.append_nil]
    | cons pair rest ih =>
        intro table hnodup
        have hnew : pair.1 ∉ keys table := by
          intro hmem
          have hdisjoint := (List.nodup_append.mp hnodup).2.2
          exact hdisjoint pair.1 hmem pair.1 List.mem_cons_self rfl
        have hkeys : (keys (table ++ [pair]) ++ rest.map (·.1)).Nodup := by
          simpa [keys] using hnodup
        rw [List.foldl_cons, insert_of_not_mem hnew, ih _ hkeys, List.append_assoc]
        rfl
  exact hfold pairs [] h

end ToyC.Table
