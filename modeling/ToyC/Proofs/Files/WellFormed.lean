import ToyC.Files.Default
import ToyC.Proofs.Files.Place
import ToyC.Proofs.Text

/-!
Well-formed file trees. That a directory has entries and no text, and a file text
and no entries, is part of the type of nodes; what is left to say is that the keys
of a directory are distinct and that every entry is stored under the canonical
name that its node carries. Every change of entries that respects this at one
place keeps it in the whole tree.
-/

namespace ToyC

/-- A name that can stand between two slashes of a path and leads to an entry of its own: not
empty, without a slash, and none of the parts that a path gives another meaning. -/
def Path.Canonical (name : String) : Prop :=
  name ≠ "" ∧ '/' ∉ name.toList ∧ name ≠ "." ∧ name ≠ ".." ∧ name ≠ "~"

instance (name : String) : Decidable (Path.Canonical name) :=
  inferInstanceAs
    (Decidable (name ≠ "" ∧ '/' ∉ name.toList ∧ name ≠ "." ∧ name ≠ ".." ∧ name ≠ "~"))

namespace Path

/-! ### Resolving a path -/

theorem canonical_of_mem_home : ∀ name ∈ home, Canonical name := by
  decide

/-- One more part of a path leads from canonical names to canonical names. -/
theorem canonical_follow {place : List String} {part : String}
    (hplace : ∀ name ∈ place, Canonical name) (hpart : '/' ∉ part.toList) :
    ∀ name ∈ follow place part, Canonical name := by
  intro name hname
  unfold follow at hname
  split at hname
  · exact hplace name hname
  · rename_i hneutral
    split at hname
    · exact hplace name ((List.dropLast_sublist place).subset hname)
    · rename_i hup
      split at hname
      · exact canonical_of_mem_home name hname
      · rename_i htilde
        rcases List.mem_append.mp hname with hold | hnew
        · exact hplace name hold
        · rw [List.mem_singleton.mp hnew]
          push Not at hneutral
          exact ⟨hneutral.1, hpart, hneutral.2, hup, htilde⟩

/-- Whatever a user types, it leads from a canonical directory to canonical names. -/
theorem canonical_resolve {cwd : List String} (hcwd : ∀ name ∈ cwd, Canonical name)
    (path : String) : ∀ name ∈ resolve cwd path, Canonical name := by
  have hparts : ∀ part ∈ parts path, '/' ∉ part.toList := by
    intro part hpart
    obtain ⟨piece, hpiece, rfl⟩ := List.mem_map.mp hpart
    simpa using Text.not_mem_of_mem_splitOn hpiece
  have hfold : ∀ (rest : List String) (place : List String),
      (∀ part ∈ rest, '/' ∉ part.toList) → (∀ name ∈ place, Canonical name) →
        ∀ name ∈ rest.foldl follow place, Canonical name := by
    intro rest
    induction rest with
    | nil => exact fun _ _ hplace => hplace
    | cons part others ih =>
        intro place hrest hplace
        apply ih _ (fun q hq => hrest q (List.mem_cons_of_mem _ hq))
        exact canonical_follow hplace (hrest part List.mem_cons_self)
  apply hfold _ _ hparts
  split
  · exact fun name hname => absurd hname List.not_mem_nil
  · exact hcwd

end Path

namespace Node

/-! ### Named nodes -/

/-- Every directory at or below a node has distinct keys, and every entry below it is stored
under the canonical name that its node carries. The name of the node itself is free. -/
inductive Named : Node → Prop
  | file (name content : String) (attributes : Option Attributes) :
      Named (.file name content attributes)
  | directory {name : String} {entries : Table Node} {attributes : Option Attributes}
      (distinct : (Table.keys entries).Nodup)
      (keyed : ∀ entry ∈ entries, Path.Canonical entry.1 ∧ entry.2.name = entry.1)
      (below : ∀ entry ∈ entries, Named entry.2) :
      Named (.directory name entries attributes)

/-- A tree whose root is a directory and all of whose nodes are named as they are stored. -/
structure WellFormed (tree : Node) : Prop where
  isDirectory : tree.isDirectory = true
  named : tree.Named

theorem Named.rename {node : Node} (h : node.Named) (name : String) :
    (node.rename name).Named := by
  cases h with
  | file => exact .file ..
  | directory distinct keyed below => exact .directory distinct keyed below

theorem Named.lookup? {tree node : Node} (h : tree.Named) {place : List String}
    (hnode : tree.lookup? place = some node) : node.Named := by
  induction place generalizing tree with
  | nil =>
      cases hnode
      exact h
  | cons segment rest ih =>
      cases h with
      | file => cases hnode
      | directory distinct keyed below =>
          obtain ⟨child, hchild, hrest⟩ := Option.bind_eq_some_iff.mp hnode
          exact ih (below _ (Table.mem_of_get?_eq_some hchild)) hrest

/-- In every directory the keys are distinct and canonical, and each is the name of its node. -/
theorem Named.entriesAt? {tree : Node} (h : tree.Named) {place : List String}
    {entries : Table Node} (hentries : tree.entriesAt? place = some entries) :
    (Table.keys entries).Nodup ∧
      ∀ entry ∈ entries, Path.Canonical entry.1 ∧ entry.2.name = entry.1 := by
  obtain ⟨node, hnode, hthere⟩ := Option.bind_eq_some_iff.mp hentries
  cases h.lookup? hnode with
  | file => cases hthere
  | directory distinct keyed below =>
      cases hthere
      exact ⟨distinct, keyed⟩

/-- Storing a named node under its own canonical name. -/
theorem Named.insert {name key : String} {entries : Table Node} {attributes : Option Attributes}
    {child : Node} (h : (Node.directory name entries attributes).Named)
    (hkey : Path.Canonical key) (hname : child.name = key) (hchild : child.Named) :
    (Node.directory name (Table.insert key child entries) attributes).Named := by
  cases h with
  | directory distinct keyed below =>
      apply Named.directory (Table.keys_nodup_insert distinct key child)
      · intro entry hentry
        rcases Table.mem_insert hentry with rfl | hold
        · exact ⟨hkey, hname⟩
        · exact keyed entry hold
      · intro entry hentry
        rcases Table.mem_insert hentry with rfl | hold
        · exact hchild
        · exact below entry hold

theorem Named.erase {name : String} {entries : Table Node} {attributes : Option Attributes}
    (h : (Node.directory name entries attributes).Named) (key : String) :
    (Node.directory name (Table.erase key entries) attributes).Named := by
  have hsub := (Table.erase_sublist key entries).subset
  cases h with
  | directory distinct keyed below =>
      exact .directory (Table.keys_nodup_erase distinct key)
        (fun entry hentry => keyed entry (hsub hentry))
        (fun entry hentry => below entry (hsub hentry))

/-- A directory that is built from named nodes, each found under its own name. -/
theorem Named.ofChildren {name : String} {children : List Node} {attributes : Option Attributes}
    (h : ∀ child ∈ children, Path.Canonical child.name ∧ child.Named) :
    (Node.ofChildren name children attributes).Named := by
  have hfold : ∀ (rest : List Node) (entries : Table Node),
      (∀ child ∈ rest, Path.Canonical child.name ∧ child.Named) →
      (Node.directory name entries attributes).Named →
        (Node.directory name ((rest.map fun child => (child.name, child)).foldl
          (fun table pair => Table.insert pair.1 pair.2 table) entries) attributes).Named := by
    intro rest
    induction rest with
    | nil => exact fun _ _ hentries => hentries
    | cons child others ih =>
        intro entries hrest hentries
        obtain ⟨hcanonical, hnamed⟩ := hrest child List.mem_cons_self
        apply ih _ (fun other hother => hrest other (List.mem_cons_of_mem _ hother))
        exact hentries.insert hcanonical rfl hnamed
  exact hfold children [] h (.directory (by simp [Table.keys]) (by simp) (by simp))

/-- A change that keeps the directory at its place named keeps the whole tree named. -/
theorem Named.alter? {change : Table Node → Option (Table Node)}
    (hchange : ∀ (name : String) (entries fresh : Table Node) (attributes : Option Attributes),
      (Node.directory name entries attributes).Named → change entries = some fresh →
        (Node.directory name fresh attributes).Named)
    {place : List String} {tree after : Node} (h : tree.Named)
    (hafter : tree.alter? change place = some after) : after.Named := by
  induction place generalizing tree after with
  | nil =>
      cases tree with
      | file name content attributes => cases hafter
      | directory name entries attributes =>
          obtain ⟨fresh, hfresh, rfl⟩ := Option.map_eq_some_iff.mp hafter
          exact hchange name entries fresh attributes h hfresh
  | cons segment rest ih =>
      cases tree with
      | file name content attributes => cases hafter
      | directory name entries attributes =>
          obtain ⟨child, hchild, hrest⟩ := Option.bind_eq_some_iff.mp hafter
          obtain ⟨fresh, hfresh, heq⟩ := Option.bind_eq_some_iff.mp hrest
          cases heq
          have hmem := Table.mem_of_get?_eq_some hchild
          -- the altered child keeps its name, so it still fits the key it is stored under
          have hnames := name_alter? hfresh
          have hold := h
          cases hold with
          | directory distinct keyed below =>
              have hkeyed := keyed _ hmem
              exact h.insert hkeyed.1 (hnames.1.trans hkeyed.2) (ih (below _ hmem) hfresh)

/-! ### Changes of well-formed trees -/

/-- Storing a named node under its own canonical name in a directory that is there. -/
theorem WellFormed.insertAt {tree : Node} (h : tree.WellFormed) {place : List String}
    {entries : Table Node} (hplace : tree.entriesAt? place = some entries) {key : String}
    (hkey : Path.Canonical key) {child : Node} (hname : child.name = key) (hchild : child.Named) :
    ∃ after, tree.insertAt place key child = .ok after ∧ after.WellFormed ∧
      after.name = tree.name := by
  have hsome := (isSome_alter?_iff (fun es => some (Table.insert key child es)) place tree).mpr
    ⟨entries, hplace, rfl⟩
  obtain ⟨after, hafter⟩ := Option.isSome_iff_exists.mp hsome
  obtain ⟨hnames, hkind⟩ := name_alter? hafter
  refine ⟨after, by simp [Node.insertAt, Node.alter, hafter],
    ⟨hkind.trans h.isDirectory, ?_⟩, hnames⟩
  apply h.named.alter? _ hafter
  intro name es fresh attributes hdir hfresh
  cases hfresh
  exact hdir.insert hkey hname hchild

/-- Erasing an entry that is there. Every directory that is not at or below it stays. -/
theorem WellFormed.eraseAt {tree : Node} (h : tree.WellFormed) {place : List String} {key : String}
    (hnode : (tree.lookup? (place ++ [key])).isSome) :
    ∃ after, tree.eraseAt place key = .ok after ∧ after.WellFormed ∧ after.name = tree.name ∧
      ∀ other : List String, ¬ place ++ [key] <+: other → (tree.entriesAt? other).isSome →
        (after.entriesAt? other).isSome := by
  rw [lookup?_snoc] at hnode
  obtain ⟨node, hbind⟩ := Option.isSome_iff_exists.mp hnode
  obtain ⟨entries, hplace, hentry⟩ := Option.bind_eq_some_iff.mp hbind
  have hcontains : Table.contains key entries = true := by simp [Table.contains, hentry]
  have hsome := (isSome_alter?_iff (fun es =>
    if Table.contains key es then some (Table.erase key es) else none) place tree).mpr
    ⟨entries, hplace, by simp [hcontains]⟩
  obtain ⟨after, hafter⟩ := Option.isSome_iff_exists.mp hsome
  obtain ⟨hnames, hkind⟩ := name_alter? hafter
  refine ⟨after, by simp [Node.eraseAt, Node.alter, hafter],
    ⟨hkind.trans h.isDirectory, ?_⟩, hnames,
    fun other houtside hother => isSome_entriesAt?_of_erase hafter houtside hother⟩
  apply h.named.alter? _ hafter
  intro name es fresh attributes hdir hfresh
  split at hfresh
  · cases hfresh
    exact hdir.erase key
  · cases hfresh

end Node

/-- The tree that a session starts from is well formed. -/
theorem Files.defaultTree_wellFormed : defaultTree.WellFormed := by
  refine ⟨rfl, ?_⟩
  repeat' first
    | exact Node.Named.file ..
    | refine Node.Named.ofChildren ?_
    | refine List.forall_mem_cons.mpr ⟨⟨by decide, ?_⟩, ?_⟩
    | exact List.forall_mem_nil _

end ToyC
