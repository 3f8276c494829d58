import ToyC.Proofs.Files.Frame

/-!
Files that are carried about. A file that is copied or moved arrives with its text
and its attributes, and no copy of it is lost on the way, because a transfer
overwrites neither a directory nor anything beside its target. Only the name
of a copy is that of its place.
-/

namespace ToyC

namespace Node

variable {tree after : Node} {place p : List String} {content : String}
  {attributes : Option Attributes}

/-- A file with the given text and attributes is at a place, under whatever name. -/
def HoldsFile (content : String) (attributes : Option Attributes) (tree : Node)
    (p : List String) : Prop :=
  ∃ name, tree.lookup? p = some (.file name content attributes)

/-- Nothing is below a file. -/
theorem HoldsFile.eq_of_isPrefix (h : HoldsFile content attributes tree p) {q : List String}
    (hbelow : p <+: q) (hq : (tree.lookup? q).isSome) : q = p := by
  obtain ⟨name, hfile⟩ := h
  obtain ⟨rest, rfl⟩ := hbelow
  cases rest with
  | nil => exact List.append_nil p
  | cons segment rest => simp [lookup?_append, hfile, lookup?] at hq

theorem isSome_lookup?_of_isPrefix {q : List String} (hbelow : p <+: q)
    (hq : (tree.lookup? q).isSome) : (tree.lookup? p).isSome := by
  obtain ⟨rest, rfl⟩ := hbelow
  rw [lookup?_append] at hq
  exact Option.isSome_of_isSome_bind hq

/-- A file beside a place where no directory is has no path in common with it. -/
theorem HoldsFile.apart (h : HoldsFile content attributes tree p) {key : String}
    (hplace : (tree.entriesAt? place).isSome) (hne : p ≠ place ++ [key])
    (hfile : ∀ there, tree.lookup? (place ++ [key]) = some there → there.isDirectory = false) :
    ¬ place ++ [key] <+: p ∧ ¬ p <+: place ++ [key] := by
  have hthere : (tree.lookup? p).isSome := by
    obtain ⟨name, hname⟩ := h
    simp [hname]
  constructor
  · intro hbelow
    obtain ⟨node, hnode⟩ :=
      Option.isSome_iff_exists.mp (isSome_lookup?_of_isPrefix hbelow hthere)
    cases node with
    | directory => cases hfile _ hnode
    | file name text more =>
        have hholds : HoldsFile text more tree (place ++ [key]) := ⟨name, hnode⟩
        exact hne (hholds.eq_of_isPrefix hbelow hthere)
  · intro hbelow
    rcases List.prefix_concat_iff.mp hbelow with heq | habove
    · exact hne heq
    · -- the file would be the directory of the place, or above it
      obtain ⟨entries, hentries⟩ := Option.isSome_iff_exists.mp hplace
      obtain ⟨node, hnode, hdirectory⟩ := Option.bind_eq_some_iff.mp hentries
      obtain rfl := h.eq_of_isPrefix habove (by simp [hnode])
      obtain ⟨name, hname⟩ := h
      rw [hname] at hnode
      cases hnode
      cases hdirectory

/-- A node that is stored where no directory is keeps every other file. -/
theorem HoldsFile.insertAt (h : HoldsFile content attributes tree p) {key : String} {node : Node}
    (hne : p ≠ place ++ [key])
    (hfile : ∀ there, tree.lookup? (place ++ [key]) = some there → there.isDirectory = false)
    (hstored : tree.insertAt place key node = .ok after) :
    HoldsFile content attributes after p := by
  obtain ⟨hdiffers, ⟨entries, hentries, -⟩, -⟩ := insertAt_done hstored
  obtain ⟨hbelow, habove⟩ := h.apart (by simp [hentries]) hne hfile
  obtain ⟨name, hname⟩ := h
  exact ⟨name, (hdiffers.nodes p hbelow habove).trans hname⟩

/-- A file that is taken away leaves every other file. -/
theorem HoldsFile.eraseAt (h : HoldsFile content attributes tree p) {key : String}
    {text : String} {more : Option Attributes}
    (hgone : HoldsFile text more tree (place ++ [key])) (hne : p ≠ place ++ [key])
    (herased : tree.eraseAt place key = .ok after) : HoldsFile content attributes after p := by
  obtain ⟨hdiffers, entries, hentries, -, -⟩ := eraseAt_done herased
  obtain ⟨hbelow, habove⟩ := h.apart (by simp [hentries]) hne fun there hthere => by
    obtain ⟨name, hname⟩ := hgone
    rw [hname] at hthere
    cases hthere
    rfl
  obtain ⟨name, hname⟩ := h
  exact ⟨name, (hdiffers.nodes p hbelow habove).trans hname⟩

/-- Trees that differ elsewhere have a directory at the same places. -/
theorem DiffersAt.isDirectory_eq_false {target : List String} (h : DiffersAt target tree after)
    {q : List String} (hq : ¬ target <+: q)
    (hfile : ∀ there, tree.lookup? q = some there → there.isDirectory = false) {there : Node}
    (hthere : after.lookup? q = some there) : there.isDirectory = false := by
  have hlabel := h.labels q hq
  rw [hthere] at hlabel
  obtain ⟨node, hnode, hsame⟩ := Option.map_eq_some_iff.mp hlabel.symm
  cases node with
  | directory => cases hfile _ hnode
  | file name text more =>
      cases there with
      | file => rfl
      | directory => simp [label] at hsame

end Node

/-! ### Transfers -/

/-- A copy or a move, typed in some directory. -/
inductive Transfer where
  | copy (cwd : List String) (source destination : String)
  | move (cwd : List String) (source destination : String)

namespace Transfer

def source : Transfer → List String
  | .copy cwd source _ | .move cwd source _ => Path.resolve cwd source

/-- Where the node arrives. -/
def goal (tree : Node) (t : Transfer) : List String :=
  match t with
  | .copy cwd _ destination | .move cwd _ destination =>
    Files.target tree t.source (Path.resolve cwd destination)

def perform (tree : Node) : Transfer → Command
  | .copy cwd source destination => Files.cp tree cwd source destination
  | .move cwd source destination => Files.mv tree cwd source destination

/-- The places of a file and its copies, once one of them has been transferred. -/
def places (tree : Node) (old : List (List String)) (t : Transfer) : List (List String) :=
  match t with
  | .copy .. => t.goal tree :: old
  | .move .. => t.goal tree :: old.filter (· ≠ t.source)

end Transfer

/-- From the file at a place of a tree, successful transfers of it and of its copies lead to another
tree with the file at the given places. -/
inductive Carried (tree : Node) (place : List String) : Node → List (List String) → Prop
  | here : Carried tree place tree [place]
  | step {now : Node} {places : List (List String)} (h : Carried tree place now places)
      (t : Transfer) (hsource : t.source ∈ places)
      (hsucceeds : (t.perform now).succeeds = true) :
      Carried tree place ((t.perform now).after now) (t.places now places)

namespace Transfer

variable {tree : Node} {content : String} {attributes : Option Attributes}

theorem copy_holdsFile {cwd : List String} {source destination : String}
    (hfile : tree.HoldsFile content attributes (Path.resolve cwd source)) {p : List String}
    (h : p = (Transfer.copy cwd source destination).goal tree ∨ tree.HoldsFile content attributes p)
    (hsucceeds : (Files.cp tree cwd source destination).succeeds = true) :
    ((Files.cp tree cwd source destination).after tree).HoldsFile content attributes p := by
  obtain ⟨outcome, hdone, hsuccess⟩ := Command.exists_of_succeeds hsucceeds
  obtain ⟨node, place, key, after, rfl, hnode, hgoal, -, hthere, hstored⟩ :=
    Files.cp_done hdone hsuccess
  obtain ⟨name, hname⟩ := hfile
  obtain rfl := Option.some.inj (hnode.symm.trans hname)
  rw [hdone]
  change after.HoldsFile content attributes p
  by_cases hp : p = place ++ [key]
  · exact ⟨key, hp ▸ Node.lookup?_of_insertAt hstored⟩
  · rcases h with hgoes | hholds
    · exact absurd (hgoes.trans hgoal) hp
    · exact hholds.insertAt hp hthere hstored

theorem move_holdsFile {cwd : List String} {source destination : String}
    (hfile : tree.HoldsFile content attributes (Path.resolve cwd source)) {p : List String}
    (h : p = (Transfer.move cwd source destination).goal tree ∨
      tree.HoldsFile content attributes p ∧ p ≠ Path.resolve cwd source)
    (hsucceeds : (Files.mv tree cwd source destination).succeeds = true) :
    ((Files.mv tree cwd source destination).after tree).HoldsFile content attributes p := by
  obtain ⟨outcome, hdone, hsuccess⟩ := Command.exists_of_succeeds hsucceeds
  obtain ⟨node, hnode, hmoved⟩ := Files.mv_done hdone hsuccess
  rw [hdone]
  rcases hmoved with ⟨rfl, hgoal⟩ | ⟨home, last, place, key, without, after, rfl, hsource, hgoal,
    houtside, hthere, herased, hstored⟩
  · change tree.HoldsFile content attributes p
    rcases h with hgoes | ⟨hholds, -⟩
    · exact (hgoes.trans hgoal) ▸ hfile
    · exact hholds
  · change after.HoldsFile content attributes p
    obtain ⟨name, hname⟩ := hfile
    obtain rfl := Option.some.inj (hnode.symm.trans hname)
    by_cases hp : p = place ++ [key]
    · exact ⟨key, hp ▸ Node.lookup?_of_insertAt hstored⟩
    · rcases h with hgoes | ⟨hholds, hne⟩
      · exact absurd (hgoes.trans hgoal) hp
      · rw [hsource] at hne hname
        have hkept := hholds.eraseAt ⟨name, hname⟩ hne herased
        have hdiffers := (Node.eraseAt_done herased).1
        exact hkept.insertAt hp
          (fun _ => hdiffers.isDirectory_eq_false houtside hthere) hstored

end Transfer

/-- Wherever a file has been carried, it is there with its text and its attributes. -/
theorem Carried.holdsFile {tree : Node} {place : List String} {content : String}
    {attributes : Option Attributes} (hfile : tree.HoldsFile content attributes place)
    {after : Node} {places : List (List String)} (h : Carried tree place after places) :
    ∀ p ∈ places, after.HoldsFile content attributes p := by
  induction h with
  | here =>
      intro p hp
      exact List.mem_singleton.mp hp ▸ hfile
  | step _ t hsource hsucceeds ih =>
      intro p hp
      cases t with
      | copy cwd source destination =>
          apply Transfer.copy_holdsFile (ih _ hsource) _ hsucceeds
          rcases List.mem_cons.mp hp with hgoal | hold
          · exact Or.inl hgoal
          · exact Or.inr (ih p hold)
      | move cwd source destination =>
          apply Transfer.move_holdsFile (ih _ hsource) _ hsucceeds
          rcases List.mem_cons.mp hp with hgoal | hold
          · exact Or.inl hgoal
          · obtain ⟨hold, hne⟩ := List.mem_filter.mp hold
            exact Or.inr ⟨ih p hold, of_decide_eq_true hne⟩

end ToyC
