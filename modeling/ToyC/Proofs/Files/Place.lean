import Mathlib.Data.List.Basic
import ToyC.Files.Mutation
import ToyC.Proofs.Table

/-!
Places in a file tree. A place holds a directory exactly when its entries can be
changed, so the checks that a command makes before a change are the ones that the
change needs. Taking an entry away leaves every directory that is not at or below
it in its place.
-/

namespace ToyC

theorem lastOf?_eq_some_iff {segments place : List String} {name : String} :
    lastOf? segments = some (place, name) ↔ segments = place ++ [name] := by
  constructor
  · intro h
    obtain ⟨last, hlast, heq⟩ := Option.map_eq_some_iff.mp h
    simp only [Prod.mk.injEq] at heq
    obtain ⟨rfl, rfl⟩ := heq
    exact (List.dropLast_append_getLast? last hlast).symm
  · rintro rfl
    simp [lastOf?]

theorem lastOf?_snoc (place : List String) (name : String) :
    lastOf? (place ++ [name]) = some (place, name) :=
  lastOf?_eq_some_iff.mpr rfl

namespace Node

@[simp] theorem name_rename (name : String) (node : Node) : (node.rename name).name = name := by
  cases node <;> rfl

theorem lookup?_append (first second : List String) (node : Node) :
    lookup? (first ++ second) node = (lookup? first node).bind (lookup? second) := by
  induction first generalizing node with
  | nil => simp [lookup?]
  | cons segment rest ih =>
      cases node with
      | file name content attributes => simp [lookup?]
      | directory name entries attributes =>
          simp only [List.cons_append, lookup?, Option.bind_assoc]
          congr
          funext child
          exact ih child

theorem entriesAt?_nil (name : String) (entries : Table Node) (attributes : Option Attributes) :
    entriesAt? [] (.directory name entries attributes) = some entries := rfl

theorem entriesAt?_file (place : List String) (name content : String)
    (attributes : Option Attributes) : entriesAt? place (.file name content attributes) = none := by
  cases place <;> rfl

theorem entriesAt?_cons (segment : String) (rest : List String) (name : String)
    (entries : Table Node) (attributes : Option Attributes) :
    entriesAt? (segment :: rest) (.directory name entries attributes) =
      (Table.get? segment entries).bind (entriesAt? rest) := by
  simp only [entriesAt?, lookup?, Option.bind_assoc]
  rfl

/-- A node below a directory is found through the entries of that directory. -/
theorem lookup?_snoc (place : List String) (key : String) (tree : Node) :
    tree.lookup? (place ++ [key]) = (tree.entriesAt? place).bind (Table.get? key) := by
  rw [lookup?_append, entriesAt?, Option.bind_assoc]
  congr
  funext node
  cases node with
  | file name content attributes => rfl
  | directory name entries attributes =>
      simp only [lookup?, entries?, Option.bind_some]
      cases Table.get? key entries <;> rfl

/-- The entries at a place can be changed exactly when a directory is there and the change
accepts its entries. -/
theorem isSome_alter?_iff (change : Table Node → Option (Table Node)) (place : List String)
    (tree : Node) :
    (tree.alter? change place).isSome ↔
      ∃ entries, tree.entriesAt? place = some entries ∧ (change entries).isSome := by
  induction place generalizing tree with
  | nil =>
      cases tree with
      | file name content attributes => simp [alter?, entriesAt?_file]
      | directory name entries attributes => simp [alter?, entriesAt?_nil]
  | cons segment rest ih =>
      cases tree with
      | file name content attributes => simp [alter?, entriesAt?_file]
      | directory name entries attributes =>
          rw [entriesAt?_cons]
          cases hchild : Table.get? segment entries with
          | none => simp [alter?, hchild]
          | some child =>
              rw [Option.bind_some, ← ih child]
              cases hinner : alter? change rest child <;> simp [alter?, hchild, hinner]

/-- A node can be stored where a directory is. -/
theorem exists_insertAt {place : List String} {tree : Node} (h : (tree.entriesAt? place).isSome)
    (key : String) (node : Node) :
    ∃ after, tree.insertAt place key node = .ok after := by
  obtain ⟨entries, hentries⟩ := Option.isSome_iff_exists.mp h
  have hsome := (isSome_alter?_iff (fun es => some (Table.insert key node es)) place tree).mpr
    ⟨entries, hentries, rfl⟩
  obtain ⟨after, hafter⟩ := Option.isSome_iff_exists.mp hsome
  exact ⟨after, by simp [insertAt, alter, hafter]⟩

/-- A node that is there can be erased. -/
theorem exists_eraseAt {place : List String} {key : String} {tree : Node}
    (h : (tree.lookup? (place ++ [key])).isSome) :
    ∃ after, tree.eraseAt place key = .ok after := by
  rw [lookup?_snoc] at h
  obtain ⟨node, hbind⟩ := Option.isSome_iff_exists.mp h
  obtain ⟨entries, hentries, hnode⟩ := Option.bind_eq_some_iff.mp hbind
  have hsome := (isSome_alter?_iff (fun es =>
    if Table.contains key es then some (Table.erase key es) else none) place tree).mpr
    ⟨entries, hentries, by simp [Table.contains, hnode]⟩
  obtain ⟨after, hafter⟩ := Option.isSome_iff_exists.mp hsome
  exact ⟨after, by simp [eraseAt, alter, hafter]⟩

/-- A change of entries touches neither the name of the tree nor its kind. -/
theorem name_alter? {change : Table Node → Option (Table Node)} {place : List String}
    {tree after : Node} (h : tree.alter? change place = some after) :
    after.name = tree.name ∧ after.isDirectory = tree.isDirectory := by
  cases tree with
  | file name content attributes => simp [alter?] at h
  | directory name entries attributes =>
      cases place with
      | nil =>
          obtain ⟨fresh, _, rfl⟩ := Option.map_eq_some_iff.mp h
          exact ⟨rfl, rfl⟩
      | cons segment rest =>
          obtain ⟨child, _, hrest⟩ := Option.bind_eq_some_iff.mp h
          obtain ⟨fresh, _, hafter⟩ := Option.bind_eq_some_iff.mp hrest
          cases hafter
          exact ⟨rfl, rfl⟩

/-- Erasing an entry keeps every directory that is not at or below the entry. -/
theorem isSome_entriesAt?_of_erase {home place : List String} {key : String} {tree after : Node}
    (h : tree.alter? (fun entries =>
      if Table.contains key entries then some (Table.erase key entries) else none) home =
        some after)
    (houtside : ¬ home ++ [key] <+: place) (hplace : (tree.entriesAt? place).isSome) :
    (after.entriesAt? place).isSome := by
  induction home generalizing tree after place with
  | nil =>
      cases tree with
      | file name content attributes => simp [alter?] at h
      | directory name entries attributes =>
          obtain ⟨fresh, hfresh, rfl⟩ := Option.map_eq_some_iff.mp h
          dsimp only at hfresh
          split at hfresh
          · cases hfresh
            cases place with
            | nil => rfl
            | cons segment rest =>
                have hne : segment ≠ key := by
                  rintro rfl
                  exact houtside ⟨rest, rfl⟩
                rw [entriesAt?_cons] at hplace ⊢
                rwa [Table.get?_erase_of_ne hne]
          · cases hfresh
  | cons first others ih =>
      cases tree with
      | file name content attributes => simp [alter?] at h
      | directory name entries attributes =>
          obtain ⟨child, hchild, hrest⟩ := Option.bind_eq_some_iff.mp h
          obtain ⟨fresh, hfresh, hafter⟩ := Option.bind_eq_some_iff.mp hrest
          cases hafter
          cases place with
          | nil => rfl
          | cons segment rest =>
              rw [entriesAt?_cons] at hplace ⊢
              by_cases hsame : segment = first
              · subst hsame
                rw [hchild, Option.bind_some] at hplace
                rw [Table.get?_insert_self, Option.bind_some]
                apply ih hfresh _ hplace
                rintro ⟨tail, htail⟩
                exact houtside ⟨tail, by simp [← htail]⟩
              · rwa [Table.get?_insert_of_ne hsame]

end Node

end ToyC
