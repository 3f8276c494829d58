import Mathlib.Data.List.Perm.Subperm
import ToyC.Proofs.Files.Frame

/-!
Trees that differ in nothing but the order of their entries. Where names are
distinct, two trees agree in everything but that order exactly when every place
shows the same in both, so such trees can be compared place by place. Storing and
erasing keep names distinct.
-/

namespace ToyC

namespace Table

variable {α : Type}

theorem mem_keys_iff {name : String} {table : Table α} :
    name ∈ keys table ↔ (get? name table).isSome := by
  rw [Option.isSome_iff_ne_none, ne_eq, get?_eq_none_iff, not_not]

/-- Where names are distinct, every entry is the one that is found under its name. -/
theorem get?_of_mem {table : Table α} (h : (keys table).Nodup) {entry : String × α}
    (hentry : entry ∈ table) : get? entry.1 table = some entry.2 := by
  induction table with
  | nil => cases hentry
  | cons first rest ih =>
      obtain ⟨key, value⟩ := first
      obtain ⟨hnew, hrest⟩ := List.nodup_cons.mp h
      rcases List.mem_cons.mp hentry with rfl | hmem
      · simp [get?]
      · have hne : key ≠ entry.1 := by
          rintro rfl
          exact hnew (List.mem_map.mpr ⟨entry, hmem, rfl⟩)
        rw [get?, if_neg hne, ih hrest hmem]

end Table

namespace Node

/-- Every place shows the same in two trees. -/
def Alike (tree other : Node) : Prop :=
  ∀ q, (other.lookup? q).map label = (tree.lookup? q).map label

/-! ### Distinct names -/

theorem distinct_file (name content : String) (attributes : Option Attributes) :
    (Node.file name content attributes).Distinct := by
  intro place entries hplace
  rw [entriesAt?_file] at hplace
  cases hplace

theorem distinct_directory_iff {name : String} {entries : Table Node}
    {attributes : Option Attributes} : (Node.directory name entries attributes).Distinct ↔
      (Table.keys entries).Nodup ∧
        ∀ key child, Table.get? key entries = some child → child.Distinct := by
  constructor
  · intro h
    refine ⟨h [] entries rfl, fun key child hchild place inner hinner => h (key :: place) inner ?_⟩
    rw [entriesAt?_cons, hchild, Option.bind_some, hinner]
  · rintro ⟨hkeys, hbelow⟩ place inner hinner
    cases place with
    | nil =>
        cases hinner
        exact hkeys
    | cons key rest =>
        rw [entriesAt?_cons] at hinner
        obtain ⟨child, hchild, hrest⟩ := Option.bind_eq_some_iff.mp hinner
        exact hbelow key child hchild rest inner hrest

theorem Distinct.rename {node : Node} (h : node.Distinct) (name : String) :
    (node.rename name).Distinct := by
  cases node with
  | file name content attributes => exact distinct_file _ _ _
  | directory => exact distinct_directory_iff.mpr (distinct_directory_iff.mp h)

/-- Storing a node in the table of a directory. -/
theorem Distinct.insert {name key : String} {entries : Table Node}
    {attributes : Option Attributes} {child : Node}
    (h : (Node.directory name entries attributes).Distinct) (hchild : child.Distinct) :
    (Node.directory name (Table.insert key child entries) attributes).Distinct := by
  obtain ⟨hkeys, hbelow⟩ := distinct_directory_iff.mp h
  refine distinct_directory_iff.mpr ⟨Table.keys_nodup_insert hkeys key child, ?_⟩
  intro other node hnode
  by_cases hother : other = key
  · rw [hother, Table.get?_insert_self] at hnode
    cases hnode
    exact hchild
  · rw [Table.get?_insert_of_ne hother] at hnode
    exact hbelow other node hnode

theorem Distinct.erase {name : String} {entries : Table Node} {attributes : Option Attributes}
    (h : (Node.directory name entries attributes).Distinct) (key : String) :
    (Node.directory name (Table.erase key entries) attributes).Distinct := by
  obtain ⟨hkeys, hbelow⟩ := distinct_directory_iff.mp h
  refine distinct_directory_iff.mpr ⟨Table.keys_nodup_erase hkeys key, ?_⟩
  intro other node hnode
  by_cases hother : other = key
  · rw [hother, Table.get?_erase_self hkeys] at hnode
    cases hnode
  · rw [Table.get?_erase_of_ne hother] at hnode
    exact hbelow other node hnode

/-- A change that keeps names distinct in the directory at its place keeps them so everywhere. -/
theorem Distinct.alter? {change : Table Node → Option (Table Node)}
    (hchange : ∀ (name : String) (entries fresh : Table Node) (attributes : Option Attributes),
      (Node.directory name entries attributes).Distinct → change entries = some fresh →
        (Node.directory name fresh attributes).Distinct)
    {place : List String} {tree after : Node} (h : tree.Distinct)
    (hafter : tree.alter? change place = some after) : after.Distinct := by
  induction place generalizing tree after with
  | nil =>
      cases tree with
      | file name content attributes => cases hafter
      | directory name entries attributes =>
          obtain ⟨fresh, hfresh, rfl⟩ := Option.map_eq_some_iff.mp hafter
          exact hchange name entries fresh attributes h hfresh
  | cons segment rest ih =>
      cases tree with
      | file name content attributes => cases hafter
      | directory name entries attributes =>
          obtain ⟨child, hchild, hrest⟩ := Option.bind_eq_some_iff.mp hafter
          obtain ⟨fresh, hfresh, heq⟩ := Option.bind_eq_some_iff.mp hrest
          cases heq
          exact h.insert (ih ((distinct_directory_iff.mp h).2 segment child hchild) hfresh)

theorem Distinct.insertAt {tree after node : Node} {place : List String} {key : String}
    (h : tree.Distinct) (hnode : node.Distinct)
    (hafter : tree.insertAt place key node = .ok after) : after.Distinct := by
  apply h.alter? _ (alter?_of_alter hafter)
  intro name entries fresh attributes hdir hfresh
  cases hfresh
  exact hdir.insert hnode

theorem Distinct.eraseAt {tree after : Node} {place : List String} {key : String}
    (h : tree.Distinct) (hafter : tree.eraseAt place key = .ok after) : after.Distinct := by
  apply h.alter? _ (alter?_of_alter hafter)
  intro name entries fresh attributes hdir hfresh
  split at hfresh
  · cases hfresh
    exact hdir.erase key
  · cases hfresh

/-! ### Agreement up to order -/

theorem entriesAgree_iff {entries : List (String × Node)} {others : Table Node} :
    entriesAgree entries others = true ↔ ∀ entry ∈ entries,
      ∃ other, Table.get? entry.1 others = some other ∧ entry.2.agrees other = true := by
  induction entries with
  | nil => simp [entriesAgree]
  | cons entry rest ih =>
      obtain ⟨key, child⟩ := entry
      rw [entriesAgree, Bool.and_eq_true, ih, List.forall_mem_cons]
      refine and_congr ?_ Iff.rfl
      cases Table.get? key others <;> simp

/-- Tables with distinct names have the same names if the names of one are among those of the other
and there are no more of these. -/
theorem get?_eq_none_of_length_eq {entries others : Table Node} (h : (Table.keys entries).Nodup)
    (hlength : entries.length = others.length)
    (hsubset : ∀ entry ∈ entries, (Table.get? entry.1 others).isSome) {name : String}
    (hname : Table.get? name entries = none) : Table.get? name others = none := by
  have hkeys : Table.keys entries ⊆ Table.keys others := by
    intro key hkey
    obtain ⟨entry, hentry, rfl⟩ := List.mem_map.mp hkey
    exact Table.mem_keys_iff.mpr (hsubset entry hentry)
  have hperm : (Table.keys entries).Perm (Table.keys others) :=
    (h.subperm hkeys).perm_of_length_le (by simp [Table.keys, hlength])
  rw [Table.get?_eq_none_iff] at hname ⊢
  rwa [← hperm.mem_iff]

theorem alike_of_agrees {tree other : Node} (h : tree.Distinct)
    (hagrees : tree.agrees other = true) : tree.Alike other := by
  intro q
  induction q generalizing tree other with
  | nil =>
      cases tree <;> cases other <;> simp only [agrees, Bool.false_eq_true, Bool.and_eq_true,
        beq_iff_eq] at hagrees
      · simp [lookup?, label, hagrees]
      · simp [lookup?, label, hagrees]
  | cons segment rest ih =>
      cases tree with
      | file name content attributes =>
          cases other with
          | file => rfl
          | directory => simp [agrees] at hagrees
      | directory name entries attributes =>
          cases other with
          | file => simp [agrees] at hagrees
          | directory name' others attributes' =>
              simp only [agrees, Bool.and_eq_true, beq_iff_eq, entriesAgree_iff] at hagrees
              obtain ⟨⟨-, hlength⟩, hentries⟩ := hagrees
              obtain ⟨hkeys, hbelow⟩ := distinct_directory_iff.mp h
              simp only [lookup?]
              cases hchild : Table.get? segment entries with
              | none =>
                  have hsome : ∀ entry ∈ entries, (Table.get? entry.1 others).isSome := by
                    intro entry hentry
                    obtain ⟨node, hnode, -⟩ := hentries entry hentry
                    simp [hnode]
                  rw [get?_eq_none_of_length_eq hkeys hlength hsome hchild]
              | some child =>
                  obtain ⟨node, hnode, hsame⟩ :=
                    hentries _ (Table.mem_of_get?_eq_some hchild)
                  rw [hnode]
                  exact ih (hbelow segment child hchild) hsame

theorem Alike.isSome_get? {name name' : String} {entries others : Table Node}
    {attributes attributes' : Option Attributes}
    (h : (Node.directory name entries attributes).Alike (.directory name' others attributes'))
    (key : String) : (Table.get? key others).isSome = (Table.get? key entries).isSome := by
  have hlabels := congrArg Option.isSome (h [key])
  simpa [lookup?, Option.isSome_map] using hlabels

theorem agrees_of_alike {tree other : Node} (htree : tree.Distinct) (hother : other.Distinct)
    (h : tree.Alike other) : tree.agrees other = true := by
  have hroot := h []
  match tree, other with
  | .file name content attributes, .file name' content' attributes' =>
      simp only [lookup?, label, Option.map_some, Option.some.injEq, Prod.mk.injEq] at hroot
      simp [agrees, hroot]
  | .file .., .directory .. => simp [lookup?, label] at hroot
  | .directory .., .file .. => simp [lookup?, label] at hroot
  | .directory name entries attributes, .directory name' others attributes' =>
      simp only [lookup?, label, Option.map_some, Option.some.injEq, Prod.mk.injEq] at hroot
      obtain ⟨hkeys, hbelow⟩ := distinct_directory_iff.mp htree
      obtain ⟨hkeys', hbelow'⟩ := distinct_directory_iff.mp hother
      have hperm : (Table.keys entries).Perm (Table.keys others) := by
        rw [List.perm_ext_iff_of_nodup hkeys hkeys']
        intro key
        rw [Table.mem_keys_iff, Table.mem_keys_iff, h.isSome_get? key]
      have hlength : entries.length = others.length := by
        simpa [Table.keys] using hperm.length_eq
      have hentries : entriesAgree entries others = true := by
        rw [entriesAgree_iff]
        intro entry hentry
        have hchild := Table.get?_of_mem hkeys hentry
        have hsome : (Table.get? entry.1 others).isSome := by
          rw [h.isSome_get?, hchild]
          rfl
        obtain ⟨node, hnode⟩ := Option.isSome_iff_exists.mp hsome
        refine ⟨node, hnode,
          agrees_of_alike (hbelow _ _ hchild) (hbelow' _ _ hnode) fun q => ?_⟩
        simpa [lookup?, hchild, hnode] using h (entry.1 :: q)
      simp [agrees, hroot, hlength, hentries]
termination_by sizeOf tree
decreasing_by
  have := List.sizeOf_lt_of_mem hentry
  obtain ⟨key, child⟩ := entry
  simp only [Node.directory.sizeOf_spec, Prod.mk.sizeOf_spec] at this ⊢
  omega

/-- Trees with distinct names agree in everything but the order of entries exactly when every place
shows the same in both. -/
theorem agrees_iff_alike {tree other : Node} (htree : tree.Distinct) (hother : other.Distinct) :
    tree.agrees other = true ↔ tree.Alike other :=
  ⟨alike_of_agrees htree, agrees_of_alike htree hother⟩

end Node

end ToyC
