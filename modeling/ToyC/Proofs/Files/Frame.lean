import ToyC.Files.Query
import ToyC.Proofs.Files.Success
import ToyC.Proofs.Files.WellFormed

/-!
Changes of one entry and everything else. A change of the entry under one name
reaches neither the nodes beside it nor what the directories above it show of
themselves. So a command with a single target changes that target, and what it
leaves there is known exactly.
-/

namespace ToyC

namespace Node

/-- What a node shows of itself apart from what is below it: its name, its text, which makes it a
file, and its attributes. -/
def label : Node → String × Option String × Option Attributes
  | .file name content attributes => (name, some content, attributes)
  | .directory name _ attributes => (name, none, attributes)

/-- Two trees differ in nothing but what is at or below a place. Directories above the place show
the same of themselves; every other node is the same with all that is below it. -/
structure DiffersAt (target : List String) (before after : Node) : Prop where
  labels (q : List String) (h : ¬ target <+: q) :
    (after.lookup? q).map label = (before.lookup? q).map label
  nodes (q : List String) (h : ¬ target <+: q) (hbeside : ¬ q <+: target) :
    after.lookup? q = before.lookup? q

variable {change : Table Node → Option (Table Node)} {place : List String} {tree after : Node}

/-! ### Changes of entries -/

/-- The directory whose entries are changed is there before and after, with the same name and
attributes. -/
theorem lookup?_alter? (h : tree.alter? change place = some after) :
    ∃ name entries fresh attributes,
      tree.lookup? place = some (.directory name entries attributes) ∧
      change entries = some fresh ∧
      after.lookup? place = some (.directory name fresh attributes) := by
  induction place generalizing tree after with
  | nil =>
      cases tree with
      | file name content attributes => cases h
      | directory name entries attributes =>
          obtain ⟨fresh, hfresh, rfl⟩ := Option.map_eq_some_iff.mp h
          exact ⟨name, entries, fresh, attributes, rfl, hfresh, rfl⟩
  | cons segment rest ih =>
      cases tree with
      | file name content attributes => cases h
      | directory name entries attributes =>
          obtain ⟨child, hchild, hrest⟩ := Option.bind_eq_some_iff.mp h
          obtain ⟨altered, haltered, hafter⟩ := Option.bind_eq_some_iff.mp hrest
          cases hafter
          obtain ⟨inner, old, fresh, more, hold, hchange, hfresh⟩ := ih haltered
          refine ⟨inner, old, fresh, more, ?_, hchange, ?_⟩
          · rw [lookup?, hchild, Option.bind_some, hold]
          · rw [lookup?, Table.get?_insert_self, Option.bind_some, hfresh]

theorem entriesAt?_of_lookup? {name : String} {entries : Table Node}
    {attributes : Option Attributes}
    (h : tree.lookup? place = some (.directory name entries attributes)) :
    tree.entriesAt? place = some entries := by
  rw [entriesAt?, h]
  rfl

/-- A change of entries is seen at its place and below. -/
theorem differsAt_alter? (h : tree.alter? change place = some after) :
    DiffersAt place tree after := by
  induction place generalizing tree after with
  | nil => exact ⟨fun q hq => absurd List.nil_prefix hq, fun q hq => absurd List.nil_prefix hq⟩
  | cons segment rest ih =>
      cases tree with
      | file name content attributes => cases h
      | directory name entries attributes =>
          obtain ⟨child, hchild, hrest⟩ := Option.bind_eq_some_iff.mp h
          obtain ⟨altered, haltered, hafter⟩ := Option.bind_eq_some_iff.mp hrest
          cases hafter
          have hinner := ih haltered
          constructor
          · intro q hq
            cases q with
            | nil => rfl
            | cons first others =>
                by_cases hsame : first = segment
                · subst hsame
                  have hothers : ¬ rest <+: others := fun hpre =>
                    hq (List.cons_prefix_cons.mpr ⟨rfl, hpre⟩)
                  simpa [lookup?, Table.get?_insert_self, hchild] using hinner.labels _ hothers
                · simp [lookup?, Table.get?_insert_of_ne hsame]
          · intro q hq hbeside
            cases q with
            | nil => exact absurd List.nil_prefix hbeside
            | cons first others =>
                by_cases hsame : first = segment
                · subst hsame
                  have hothers : ¬ rest <+: others := fun hpre =>
                    hq (List.cons_prefix_cons.mpr ⟨rfl, hpre⟩)
                  have habove : ¬ others <+: rest := fun hpre =>
                    hbeside (List.cons_prefix_cons.mpr ⟨rfl, hpre⟩)
                  simpa [lookup?, Table.get?_insert_self, hchild] using
                    hinner.nodes _ hothers habove
                · simp [lookup?, Table.get?_insert_of_ne hsame]

/-- A change that concerns one name is seen at that name and below. -/
theorem differsAt_entry {key : String}
    (hchange : ∀ entries fresh, change entries = some fresh →
      ∀ other, other ≠ key → Table.get? other fresh = Table.get? other entries)
    (h : tree.alter? change place = some after) : DiffersAt (place ++ [key]) tree after := by
  have hdiffers := differsAt_alter? h
  obtain ⟨name, entries, fresh, attributes, hbefore, hfresh, hafter⟩ := lookup?_alter? h
  -- below the place, another name than the changed one leads to the same nodes
  have hbelow : ∀ segment rest, segment ≠ key →
      after.lookup? (place ++ segment :: rest) = tree.lookup? (place ++ segment :: rest) := by
    intro segment rest hne
    rw [lookup?_append, lookup?_append, hbefore, hafter, Option.bind_some, Option.bind_some,
      lookup?, lookup?, hchange entries fresh hfresh segment hne]
  have hne : ∀ segment rest, ¬ place ++ [key] <+: place ++ segment :: rest → segment ≠ key := by
    rintro segment rest hapart rfl
    exact hapart ⟨rest, by simp⟩
  constructor
  · intro q hq
    by_cases hplace : place <+: q
    · obtain ⟨rest, rfl⟩ := hplace
      cases rest with
      | nil => simp [hbefore, hafter, label]
      | cons segment rest => rw [hbelow segment rest (hne segment rest hq)]
    · exact hdiffers.labels q hplace
  · intro q hq hbeside
    by_cases hplace : place <+: q
    · obtain ⟨rest, rfl⟩ := hplace
      cases rest with
      | nil => exact absurd ⟨[key], by simp⟩ hbeside
      | cons segment rest => exact hbelow segment rest (hne segment rest hq)
    · exact hdiffers.nodes q hplace fun habove => hbeside (habove.trans (List.prefix_append _ _))

/-! ### Storing and erasing one entry -/

theorem alter?_of_alter (h : tree.alter place change = .ok after) :
    tree.alter? change place = some after := by
  unfold alter at h
  split at h
  · rename_i hafter
    cases h
    exact hafter
  · cases h

/-- What a node that has been stored leaves: the entries of its directory with the node, and the
node with everything below it. -/
theorem insertAt_done {key : String} {node : Node} (h : tree.insertAt place key node = .ok after) :
    DiffersAt (place ++ [key]) tree after ∧
      (∃ entries, tree.entriesAt? place = some entries ∧
        after.entriesAt? place = some (Table.insert key node entries)) ∧
      ∀ rest, after.lookup? (place ++ [key] ++ rest) = node.lookup? rest := by
  have halter := alter?_of_alter h
  obtain ⟨name, entries, fresh, attributes, hbefore, hfresh, hafter⟩ := lookup?_alter? halter
  cases hfresh
  have hentries := entriesAt?_of_lookup? hafter
  refine ⟨differsAt_entry ?_ halter, ⟨entries, entriesAt?_of_lookup? hbefore, hentries⟩, ?_⟩
  · intro old fresh hfresh other hother
    cases hfresh
    exact Table.get?_insert_of_ne hother node old
  · intro rest
    rw [lookup?_append, lookup?_snoc, hentries, Option.bind_some, Table.get?_insert_self,
      Option.bind_some]

theorem lookup?_of_insertAt {key : String} {node : Node}
    (h : tree.insertAt place key node = .ok after) :
    after.lookup? (place ++ [key]) = some node := by
  obtain ⟨-, -, hnode⟩ := insertAt_done h
  simpa [lookup?] using hnode []

/-- What an entry that has been erased leaves: the other entries of its directory. -/
theorem eraseAt_done {key : String} (h : tree.eraseAt place key = .ok after) :
    DiffersAt (place ++ [key]) tree after ∧
      ∃ entries, tree.entriesAt? place = some entries ∧ Table.contains key entries = true ∧
        after.entriesAt? place = some (Table.erase key entries) := by
  have halter := alter?_of_alter h
  obtain ⟨name, entries, fresh, attributes, hbefore, hfresh, hafter⟩ := lookup?_alter? halter
  refine ⟨differsAt_entry ?_ halter, entries, entriesAt?_of_lookup? hbefore, ?_⟩
  · intro old fresh hfresh other hother
    split at hfresh
    · cases hfresh
      exact Table.get?_erase_of_ne hother old
    · cases hfresh
  · split at hfresh
    · rename_i hcontains
      cases hfresh
      exact ⟨hcontains, entriesAt?_of_lookup? hafter⟩
    · cases hfresh

/-- In every directory of a tree the names are distinct. -/
def Distinct (tree : Node) : Prop :=
  ∀ place entries, tree.entriesAt? place = some entries → (Table.keys entries).Nodup

theorem WellFormed.distinct (h : tree.WellFormed) : tree.Distinct := by
  intro place entries hplace
  exact (h.named.entriesAt? hplace).1

/-- Nothing is left at or below an entry that has been erased. -/
theorem lookup?_of_eraseAt (htree : tree.Distinct) {key : String}
    (h : tree.eraseAt place key = .ok after) (rest : List String) :
    after.lookup? (place ++ [key] ++ rest) = none := by
  obtain ⟨-, entries, hentries, -, hfresh⟩ := eraseAt_done h
  rw [lookup?_append, lookup?_snoc, hfresh, Option.bind_some,
    Table.get?_erase_self (htree place entries hentries), Option.bind_none]

end Node

/-! ### Commands with a single target -/

/-- A command that changes what is at one path. -/
inductive Edit where
  | mkdir (path : String)
  | touch (path : String)
  | writeFile (path content : String)
  | install (path : String) (node : Node) (command : String)
  | rm (path : String) (recursive : Bool)

namespace Edit

def path : Edit → String
  | .mkdir path | .touch path | .writeFile path _ | .install path .. | .rm path _ => path

def perform (tree : Node) (cwd : List String) : Edit → Command
  | .mkdir path => Files.mkdir tree cwd path
  | .touch path => Files.touch tree cwd path
  | .writeFile path content => Files.writeFile tree cwd path content
  | .install path node command => Files.install tree cwd path node command
  | .rm path recursive => Files.rm tree cwd path recursive

/-- A file that is touched is missing before; otherwise nothing is to be done. -/
def Needed (tree : Node) (cwd : List String) : Edit → Prop
  | .touch path => tree.lookup? (Path.resolve cwd path) = none
  | _ => True

/-- The names in a directory after an edit at one of them. A new name goes to the end, and all
other names keep their order. -/
def names (name : String) (old : List String) : Edit → List String
  | .rm .. => old.erase name
  | _ => if name ∈ old then old else old ++ [name]

/-- What an edit leaves at the target, whose last name is given. -/
def Leaves (after : Node) (cwd target : List String) (name : String) : Edit → Prop
  | .mkdir _ => after.lookup? target = some (.directory name [] none)
  | .touch _ => after.lookup? target = some (.file name "" none)
  | .writeFile path content => Files.cat after cwd path = .ok content
  | .install _ node _ => ∀ rest, after.lookup? (target ++ rest) = (node.rename name).lookup? rest
  | .rm .. => ∀ rest, after.lookup? (target ++ rest) = none

/-- What follows for an edit from the node that it stores. -/
theorem of_insertAt {tree after node : Node} {place : List String} {name : String} {e : Edit}
    (h : tree.insertAt place name node = .ok after)
    (hnames : ∀ old, e.names name old = if name ∈ old then old else old ++ [name]) :
    Node.DiffersAt (place ++ [name]) tree after ∧
      ∃ entries fresh, tree.entriesAt? place = some entries ∧
        after.entriesAt? place = some fresh ∧
        Table.keys fresh = e.names name (Table.keys entries) := by
  obtain ⟨hdiffers, ⟨entries, hentries, hfresh⟩, -⟩ := Node.insertAt_done h
  exact ⟨hdiffers, entries, _, hentries, hfresh, by rw [Table.keys_insert, hnames]⟩

/-- A successful edit changes nothing but what is at or below its target. The directory of the
target keeps the order of its names, with a new name last, and at the target is what the edit
is for. -/
theorem perform_differsAt {tree : Node} (htree : tree.Distinct) {cwd : List String} {e : Edit}
    (hneeded : e.Needed tree cwd) (hsucceeds : (e.perform tree cwd).succeeds = true) :
    let after := (e.perform tree cwd).after tree
    ∃ place name, Path.resolve cwd e.path = place ++ [name] ∧
      Node.DiffersAt (place ++ [name]) tree after ∧
      (∃ entries fresh, tree.entriesAt? place = some entries ∧
        after.entriesAt? place = some fresh ∧
        Table.keys fresh = e.names name (Table.keys entries)) ∧
      e.Leaves after cwd (place ++ [name]) name := by
  obtain ⟨outcome, h, hsuccess⟩ := Command.exists_of_succeeds hsucceeds
  rw [h]
  cases e with
  | mkdir path =>
      obtain ⟨place, name, after, rfl, hpath, -, hstored⟩ := Files.mkdir_done h hsuccess
      obtain ⟨hdiffers, hnames⟩ := of_insertAt (e := .mkdir path) hstored fun _ => rfl
      exact ⟨place, name, hpath, hdiffers, hnames, Node.lookup?_of_insertAt hstored⟩
  | touch path =>
      obtain ⟨hthere, -⟩ | ⟨place, name, after, rfl, hpath, -, hstored⟩ :=
        Files.touch_done h hsuccess
      · simp [show tree.lookup? (Path.resolve cwd path) = none from hneeded] at hthere
      · obtain ⟨hdiffers, hnames⟩ := of_insertAt (e := .touch path) hstored fun _ => rfl
        exact ⟨place, name, hpath, hdiffers, hnames, Node.lookup?_of_insertAt hstored⟩
  | writeFile path content =>
      obtain ⟨place, name, after, rfl, hpath, -, hstored⟩ := Files.install_done h hsuccess
      obtain ⟨hdiffers, hnames⟩ := of_insertAt (e := .writeFile path content) hstored fun _ => rfl
      have hfile := Node.lookup?_of_insertAt hstored
      rw [← hpath] at hfile
      refine ⟨place, name, hpath, hdiffers, hnames, ?_⟩
      change Files.cat after cwd path = .ok content
      rw [Files.cat, hfile]
      rfl
  | install path node command =>
      obtain ⟨place, name, after, rfl, hpath, -, hstored⟩ := Files.install_done h hsuccess
      obtain ⟨hdiffers, hnames⟩ :=
        of_insertAt (e := .install path node command) hstored fun _ => rfl
      obtain ⟨-, -, hnode⟩ := Node.insertAt_done hstored
      exact ⟨place, name, hpath, hdiffers, hnames, hnode⟩
  | rm path recursive =>
      obtain ⟨place, name, after, rfl, hpath, herased⟩ := Files.rm_done h hsuccess
      obtain ⟨hdiffers, entries, hentries, -, hfresh⟩ := Node.eraseAt_done herased
      refine ⟨place, name, hpath, hdiffers,
        ⟨entries, _, hentries, hfresh, Table.keys_erase name entries⟩, fun rest => ?_⟩
      change after.lookup? (place ++ [name] ++ rest) = none
      rw [Node.lookup?_append, Node.lookup?_snoc, hfresh, Option.bind_some,
        Table.get?_erase_self (htree place entries hentries), Option.bind_none]

/-- A directory takes the place of a file in the home directory, under the file's name. -/
theorem perform_differsAt_replaced :
    let e := Edit.install "projects/.././todo.list"
      (.directory "tools" [("run", .file "run" "" none)] none) "install"
    let after := (e.perform Files.defaultTree Path.home).after Files.defaultTree
    (e.perform Files.defaultTree Path.home).succeeds = true ∧
      Node.DiffersAt ["home", "guest", "todo.list"] Files.defaultTree after ∧
      (after.entriesAt? ["home", "guest"]).map Table.keys =
        some ["readme.txt", "secrets.txt", "todo.list", "projects"] ∧
      after.lookup? ["home", "guest", "todo.list", "run"] = some (.file "run" "" none) := by
  intro e after
  have hresolve : Path.resolve Path.home e.path = ["home", "guest", "todo.list"] := by decide
  have hold : (Files.defaultTree.entriesAt? ["home", "guest"]).map Table.keys =
      some ["readme.txt", "secrets.txt", "todo.list", "projects"] := by decide +kernel
  have hsucceeds : (e.perform Files.defaultTree Path.home).succeeds = true := by decide +kernel
  obtain ⟨place, name, hpath, hdiffers, ⟨entries, fresh, hentries, hfresh, hkeys⟩, hleaves⟩ :=
    perform_differsAt (e := e) Files.defaultTree_wellFormed.distinct trivial hsucceeds
  obtain ⟨rfl, rfl⟩ : place = ["home", "guest"] ∧ name = "todo.list" := by
    have hlast := lastOf?_eq_some_iff.mpr (hresolve.symm.trans hpath)
    cases hlast
    exact ⟨rfl, rfl⟩
  refine ⟨hsucceeds, hdiffers, ?_, hleaves ["run"]⟩
  rw [hentries] at hold
  rw [hfresh, Option.map_some, hkeys, Option.some.inj hold]
  rfl

end Edit

end ToyC
