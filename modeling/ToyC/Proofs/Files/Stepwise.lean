import ToyC.Proofs.Files.Frame
import ToyC.Proofs.Files.Session

/-!
Every command once more, with each step that has no result somewhere written out as a
step of its own: reading the entries of a file, the last name of the root, a node or a
key that is missing, and a place in the copy of a tree where no directory is. A command
checks its nodes in the tree that it is given and walks to them again in the copy.
-/

namespace ToyC

/-- What can stop a command between two of its steps. -/
inductive Obstacle where
  | noDirectory (place : List String)
  | noNode
  | noEntries
  | noEntry (key : String)
  | noName

/-- A computation in steps that can be stopped. -/
abbrev Steps (α : Type) := Except Obstacle α

/-- The tree that a command hands back, and its error if it failed. -/
structure Report where
  tree : Node
  error? : Option FileError := none

/-- What a command did, as it is reported. -/
def Outcome.report (before : Node) (outcome : Outcome) : Report :=
  { tree := outcome.tree before, error? := outcome.error? }

theorem Outcome.report_tree_of_error {before : Node} {outcome : Outcome}
    (h : (outcome.report before).error?.isSome) : (outcome.report before).tree = before := by
  cases outcome with
  | changed tree => cases h
  | unchanged => rfl
  | failed error => rfl

namespace Steps

/-- Go on with what is there. -/
def need {α : Type} (obstacle : Obstacle) : Option α → Steps α
  | some a => .ok a
  | none => .error obstacle

@[simp] theorem need_some {α : Type} (obstacle : Obstacle) (a : α) :
    need obstacle (some a) = .ok a := rfl

@[simp] theorem ok_bind {α β : Type} (a : α) (next : α → Steps β) : (.ok a >>= next) = next a := rfl

@[simp] theorem pure_eq {α : Type} (a : α) : (pure a : Steps α) = .ok a := rfl

/-! ### Paths -/

/-- The last name of a place. -/
def lastName (place : List String) : Steps String :=
  need .noName place.getLast?

@[simp] theorem lastName_snoc (place : List String) (name : String) :
    lastName (place ++ [name]) = .ok name := by
  simp [lastName]

/-- A place without its last name. -/
def withoutLast (place : List String) : Steps (List String) := do
  let _ ← lastName place
  return place.dropLast

def follow (place : List String) (part : String) : Steps (List String) :=
  if part = "" ∨ part = "." then return place
  else if part = ".." then (if place = [] then return place else withoutLast place)
  else if part = "~" then return Path.home
  else return place ++ [part]

theorem follow_eq (place : List String) (part : String) :
    follow place part = .ok (Path.follow place part) := by
  have hup : (if place = [] then return place else withoutLast place : Steps (List String)) =
      .ok place.dropLast := by
    rcases List.eq_nil_or_concat' place with rfl | ⟨above, name, rfl⟩
    · rfl
    · simp [withoutLast]
  unfold follow Path.follow
  rw [hup]
  split_ifs <;> rfl

def resolve (cwd : List String) (path : String) : Steps (List String) :=
  if path = "/" then return []
  else if path = "~" then return Path.home
  else (Path.parts path).foldlM follow (if path.toList.head? = some '/' then [] else cwd)

@[simp] theorem resolve_eq (cwd : List String) (path : String) :
    resolve cwd path = .ok (Path.resolve cwd path) := by
  have hfold : ∀ (parts : List String) (start : List String),
      parts.foldlM follow start = .ok (parts.foldl Path.follow start) := by
    intro parts
    induction parts with
    | nil => exact fun _ => rfl
    | cons part rest ih =>
        intro start
        rw [List.foldlM_cons, follow_eq, ok_bind, ih, List.foldl_cons]
  unfold resolve
  split
  · rename_i hroot
    subst hroot
    rfl
  · split
    · rename_i hhome
      subst hhome
      rfl
    · exact hfold _ _

/-! ### Walking in a tree -/

/-- The node at a place. Entries are read only where there are some. -/
def walk : List String → Node → Steps (Option Node)
  | [], node => return some node
  | segment :: rest, node =>
    if node.isDirectory then do
      let entries ← need .noEntries node.entries?
      match Table.get? segment entries with
      | none => return none
      | some child => walk rest child
    else return none

@[simp] theorem walk_eq (place : List String) (tree : Node) :
    walk place tree = .ok (tree.lookup? place) := by
  induction place generalizing tree with
  | nil => rfl
  | cons segment rest ih =>
      cases tree with
      | file name content attributes => rfl
      | directory name entries attributes =>
          simp only [walk, Node.isDirectory, Node.entries?, Node.lookup?, need_some, ok_bind,
            if_true]
          cases Table.get? segment entries with
          | none => rfl
          | some child => exact ih child

/-- The directory that a place is in. -/
def parentDirectory (tree : Node) (place : List String) : Steps (Option Node) := do
  let parent? ← walk place.dropLast tree
  return parent?.filter Node.isDirectory

/-- The directory that a place is in is found with its entries, or there is none. -/
theorem parentDirectory_snoc (tree : Node) (place : List String) (name : String) :
    (parentDirectory tree (place ++ [name]) = .ok none ∧ tree.entriesAt? place = none) ∨
      ∃ parent entries, parentDirectory tree (place ++ [name]) = .ok (some parent) ∧
        parent.entries? = some entries ∧ tree.entriesAt? place = some entries := by
  simp only [parentDirectory, List.dropLast_concat, walk_eq, ok_bind, pure_eq, Node.entriesAt?]
  cases tree.lookup? place with
  | none => exact .inl ⟨rfl, rfl⟩
  | some parent =>
      cases parent with
      | file name content attributes => exact .inl ⟨rfl, rfl⟩
      | directory name entries attributes => exact .inr ⟨_, entries, rfl, rfl, rfl⟩

/-! ### Changing a copy -/

/-- The copy of a tree in which the directory at a place is to be changed. -/
def cloneAt (tree : Node) (place : List String) : Steps Node := do
  match ← walk place tree with
  | none => throw (.noDirectory place)
  | some parent => if parent.isDirectory then return tree else throw (.noDirectory place)

theorem cloneAt_eq {tree : Node} {place : List String} {entries : Table Node}
    (h : tree.entriesAt? place = some entries) : cloneAt tree place = .ok tree := by
  obtain ⟨parent, hparent, hentries⟩ := Option.bind_eq_some_iff.mp h
  cases parent with
  | file name content attributes => cases hentries
  | directory name entries' attributes => simp [cloneAt, hparent, Node.isDirectory]

end Steps

/-- The node with other entries; a file has none to be replaced. -/
def Node.withEntries (entries : Table Node) : Node → Node
  | .directory name _ attributes => .directory name entries attributes
  | .file name content attributes => .file name content attributes

namespace Steps

/-- Change the entries of the node at a place. -/
def change (act : Table Node → Steps (Table Node)) : List String → Node → Steps Node
  | [], node => do
    let entries ← need .noEntries node.entries?
    return node.withEntries (← act entries)
  | segment :: rest, node => do
    let entries ← need .noEntries node.entries?
    let child ← need .noNode (Table.get? segment entries)
    return node.withEntries (Table.insert segment (← change act rest child) entries)

theorem change_eq {act : Table Node → Steps (Table Node)}
    {accept : Table Node → Option (Table Node)}
    (h : ∀ entries fresh, accept entries = some fresh → act entries = .ok fresh)
    {place : List String} {tree after : Node} (hafter : tree.alter? accept place = some after) :
    change act place tree = .ok after := by
  induction place generalizing tree after with
  | nil =>
      cases tree with
      | file name content attributes => cases hafter
      | directory name entries attributes =>
          obtain ⟨fresh, hfresh, rfl⟩ := Option.map_eq_some_iff.mp hafter
          simp [change, Node.entries?, h entries fresh hfresh, Node.withEntries]
  | cons segment rest ih =>
      cases tree with
      | file name content attributes => cases hafter
      | directory name entries attributes =>
          obtain ⟨child, hchild, hrest⟩ := Option.bind_eq_some_iff.mp hafter
          obtain ⟨altered, haltered, hdone⟩ := Option.bind_eq_some_iff.mp hrest
          cases hdone
          simp [change, Node.entries?, hchild, ih haltered, Node.withEntries]

/-- Store a node under a key of the directory at a place. -/
def store (place : List String) (key : String) (node : Node) : Node → Steps Node :=
  change (fun entries => return Table.insert key node entries) place

/-- Remove a key from the directory at a place. -/
def remove (place : List String) (key : String) : Node → Steps Node :=
  change (fun entries => do
    let _ ← need (.noEntry key) (Table.get? key entries)
    return Table.erase key entries) place

theorem store_eq {tree after node : Node} {place : List String} {key : String}
    (h : tree.insertAt place key node = .ok after) : store place key node tree = .ok after := by
  apply change_eq _ (Node.alter?_of_alter h)
  intro entries fresh hfresh
  cases hfresh
  rfl

theorem remove_eq {tree after : Node} {place : List String} {key : String}
    (h : tree.eraseAt place key = .ok after) : remove place key tree = .ok after := by
  apply change_eq _ (Node.alter?_of_alter h)
  intro entries fresh hfresh
  cases hchild : Table.get? key entries with
  | none => simp [Table.contains, hchild] at hfresh
  | some child => simpa [Table.contains, hchild] using hfresh

/-- The steps that commands with one new node end in: the tree is copied, and the node is stored in
the copy. -/
def put (tree : Node) (place : List String) (name : String) (node : Node) : Steps Report := do
  let clone ← cloneAt tree place.dropLast
  return { tree := ← store place.dropLast name node clone }

def fail (tree : Node) (reason : FileError.Reason) (command operand : String)
    (action detail : Option String) : Steps Report :=
  return { tree, error? := some { reason, command, operand, action, detail } }

/-! ### Commands -/

def mkdir (tree : Node) (cwd : List String) (path : String) : Steps Report := do
  let fail (reason : FileError.Reason) : Steps Report :=
    fail tree reason "mkdir" path "cannot create directory" none
  let segments ← resolve cwd path
  if segments = [] then fail .alreadyExists
  else
    match ← parentDirectory tree segments with
    | none => fail .notFound
    | some parent =>
      let name ← lastName segments
      if Table.contains name (← need .noEntries parent.entries?) then fail .alreadyExists
      else put tree segments name (.directory name [] none)

def touch (tree : Node) (cwd : List String) (path : String) : Steps Report := do
  let segments ← resolve cwd path
  if (← walk segments tree).isSome then return { tree }
  else
    match ← parentDirectory tree segments with
    | none => fail tree .notFound "touch" path "cannot touch" none
    | some _ =>
      let name ← lastName segments
      put tree segments name (.file name "" none)

def rm (tree : Node) (cwd : List String) (path : String) (recursive : Bool) : Steps Report := do
  let fail (reason : FileError.Reason) (detail : Option String) : Steps Report :=
    fail tree reason "rm" path "cannot remove" detail
  let segments ← resolve cwd path
  if segments = [] then fail .invalid "refusing to remove the root directory"
  else
    match ← walk segments tree with
    | none => fail .notFound none
    | some node =>
      if node.isDirectory ∧ ¬recursive then fail .isDirectory none
      else
        let clone ← cloneAt tree segments.dropLast
        return { tree := ← remove segments.dropLast (← lastName segments) clone }

def install (tree : Node) (cwd : List String) (path : String) (node : Node) (command : String) :
    Steps Report := do
  let fail (reason : FileError.Reason) : Steps Report :=
    fail tree reason command path "cannot write" none
  let segments ← resolve cwd path
  if segments = [] then fail .isDirectory
  else
    match ← parentDirectory tree segments with
    | none => fail .notFound
    | some parent =>
      let name ← lastName segments
      if Files.holdsDirectory (← need .noEntries parent.entries?) name then fail .isDirectory
      else put tree segments name (node.rename name)

def target (tree : Node) (source destination : List String) : Steps (List String) := do
  match ← walk destination tree with
  | none => return destination
  | some node =>
    if node.isDirectory ∧ source ≠ [] then return destination ++ [← lastName source]
    else return destination

def cp (tree : Node) (cwd : List String) (source destination : String) : Steps Report := do
  let fail (reason : FileError.Reason) (operand action : String) (detail : Option String) :
      Steps Report :=
    fail tree reason "cp" operand action detail
  let src ← resolve cwd source
  match ← walk src tree with
  | none => fail .notFound source "cannot stat" none
  | some node =>
    let dst ← target tree src (← resolve cwd destination)
    if dst = src then fail .invalid source "cannot copy" "source and destination are the same"
    else if src = [] ∨ src.isPrefixOf dst then
      fail .invalid source "cannot copy" "cannot copy a directory into itself"
    else
      match ← if dst = [] then pure none else parentDirectory tree dst with
      | none => fail .notFound destination "cannot create regular file" none
      | some parent =>
        let name ← lastName dst
        if Files.holdsDirectory (← need .noEntries parent.entries?) name then
          fail .isDirectory destination "cannot overwrite directory" none
        else put tree dst name (node.rename name)

def mv (tree : Node) (cwd : List String) (source destination : String) : Steps Report := do
  let fail (reason : FileError.Reason) (operand action : String) (detail : Option String) :
      Steps Report :=
    fail tree reason "mv" operand action detail
  let src ← resolve cwd source
  match ← walk src tree with
  | none => fail .notFound source "cannot stat" none
  | some _ =>
    let dst ← target tree src (← resolve cwd destination)
    if dst = src then return { tree }
    else if src = [] ∨ src.isPrefixOf dst then
      fail .invalid source "cannot move" "cannot move a directory into a subdirectory of itself"
    else
      match ← if dst = [] then pure none else parentDirectory tree dst with
      | none => fail .notFound destination ("cannot move '" ++ source ++ "' to") none
      | some parent =>
        let name ← lastName dst
        if Files.holdsDirectory (← need .noEntries parent.entries?) name then
          fail .isDirectory destination "cannot overwrite directory" none
        else
          -- the copy is not checked again: its nodes are walked to, and are taken to be there
          let key ← lastName src
          let home ← need .noNode (← walk src.dropLast tree)
          let moved ← need (.noEntry key) (Table.get? key (← need .noEntries home.entries?))
          let without ← remove src.dropLast key tree
          return { tree := ← store dst.dropLast name (moved.rename name) without }

def cat (tree : Node) (cwd : List String) (path : String) : Steps (Except FileError String) := do
  match ← walk (← resolve cwd path) tree with
  | none => return .error { reason := .notFound, command := "cat", operand := path }
  | some (.directory ..) =>
    return .error { reason := .isDirectory, command := "cat", operand := path }
  | some (.file _ content _) => return .ok content

def compileFile (tree : Node) (cwd : List String) (source output : String) : Steps Report := do
  match ← cat tree cwd source with
  | .error e =>
    return { tree, error? := some { reason := e.reason, command := "gcc", operand := source } }
  | .ok text => install tree cwd output (build text.toList defaultOutput).artifact "gcc"

/-- The place that a path leads to if one is given. -/
def given (cwd otherwise : List String) (path : Option String) : Steps (List String) :=
  match Files.given? path with
  | some path => resolve cwd path
  | none => return otherwise

def ls (tree : Node) (cwd : List String) (path : Option String) :
    Steps (Except FileError (List String)) := do
  let segments ← given cwd cwd path
  match ← walk segments tree with
  | none =>
    return .error { reason := .notFound, command := "ls", operand := (Files.given? path).getD ".",
                    action := "cannot access" }
  | some node =>
    if node.isDirectory then
      return .ok ((← need .noEntries node.entries?).map fun (key, child) => Files.shown key child)
    else return .ok [node.name]

def changeDirectory (tree : Node) (cwd : List String) (path : Option String) :
    Steps (Except FileError (List String)) := do
  let fail (reason : FileError.Reason) : Steps (Except FileError (List String)) :=
    return .error { reason, command := "cd", operand := (Files.given? path).getD "~" }
  let segments ← given cwd Path.home path
  match ← walk segments tree with
  | none => fail .notFound
  | some node => if node.isDirectory then return .ok segments else fail .notDirectory

def searchPlace (cwd : List String) (lead : List Char) : Steps (List String) :=
  match lead with
  | [] => return cwd
  | ['/'] => resolve cwd "/"
  | _ => resolve cwd (String.ofList lead.dropLast)

def complete (tree : Node) (cwd : List String) (word : String) : Steps (List String) := do
  let (lead, stem) := Files.splitWord word.toList
  match ← walk (← searchPlace cwd lead) tree with
  | none => return []
  | some node =>
    if node.isDirectory then
      let entries ← need .noEntries node.entries?
      return (entries.filter fun (key, _) => stem.isPrefixOf key.toList).map fun (key, child) =>
        String.ofList lead ++ Files.shown key child
    else return []

end Steps

end ToyC
