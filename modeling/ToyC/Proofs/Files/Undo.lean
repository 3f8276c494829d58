import ToyC.Proofs.Files.Carrying
import ToyC.Proofs.Files.Route
import ToyC.Proofs.Files.Session

/-!
Commands that take others back. A node that was made where nothing was is the last
entry of its directory, and removing it gives back the tree as it was, with the order
of its entries. A node that was moved to a free place can be moved back, since neither
command redirects it: nothing is left where it came from. Its entry is then the last
one there, so the tree is the same up to that order.
-/

namespace ToyC

namespace Node

variable {tree after : Node} {place : List String} {key : String}

/-- Two changes of the entries at one place are one change. -/
theorem alter?_alter? {first second : Table Node → Option (Table Node)}
    (h : tree.alter? first place = some after) :
    after.alter? second place =
      tree.alter? (fun entries => (first entries).bind second) place := by
  induction place generalizing tree after with
  | nil =>
      cases tree with
      | file => cases h
      | directory name entries attributes =>
          obtain ⟨fresh, hfresh, rfl⟩ := Option.map_eq_some_iff.mp h
          simp [alter?, hfresh]
  | cons segment rest ih =>
      cases tree with
      | file => cases h
      | directory name entries attributes =>
          obtain ⟨child, hchild, hrest⟩ := Option.bind_eq_some_iff.mp h
          obtain ⟨altered, haltered, hafter⟩ := Option.bind_eq_some_iff.mp hrest
          cases hafter
          simp [alter?, hchild, Table.get?_insert_self, Table.insert_insert, ih haltered]

/-- A change that leaves the entries at its place as they are leaves the tree as it is. -/
theorem alter?_unchanged {change : Table Node → Option (Table Node)} {entries : Table Node}
    (hentries : tree.entriesAt? place = some entries) (h : change entries = some entries) :
    tree.alter? change place = some tree := by
  induction place generalizing tree with
  | nil =>
      cases tree with
      | file => cases hentries
      | directory =>
          cases hentries
          simp [alter?, h]
  | cons segment rest ih =>
      cases tree with
      | file => cases hentries
      | directory name others attributes =>
          rw [entriesAt?_cons] at hentries
          obtain ⟨child, hchild, hbelow⟩ := Option.bind_eq_some_iff.mp hentries
          simp [alter?, hchild, ih hbelow, Table.insert_get? hchild]

/-- A node that is stored where nothing was and erased again leaves the tree as it was. -/
theorem eraseAt_insertAt {node : Node} (hmissing : tree.lookup? (place ++ [key]) = none)
    (h : tree.insertAt place key node = .ok after) : after.eraseAt place key = .ok tree := by
  obtain ⟨-, ⟨entries, hentries, -⟩, -⟩ := insertAt_done h
  have hnew : key ∉ Table.keys entries := by
    rw [lookup?_snoc, hentries, Option.bind_some] at hmissing
    exact Table.get?_eq_none_iff.mp hmissing
  have hback : tree.alter? (fun entries => (some (Table.insert key node entries)).bind
      fun fresh => if Table.contains key fresh then some (Table.erase key fresh) else none) place =
        some tree := by
    apply alter?_unchanged hentries
    simp [Table.contains, Table.get?_insert_self, Table.erase_insert hnew]
  rw [eraseAt, alter, alter?_alter? (alter?_of_alter h), hback]

/-- A node that is erased and stored again leaves the tree as it was up to the order of entries. -/
theorem agrees_insertAt_eraseAt (htree : tree.Distinct) {node without : Node}
    (hnode : tree.lookup? (place ++ [key]) = some node)
    (herased : tree.eraseAt place key = .ok without)
    (hstored : without.insertAt place key node = .ok after) : after.agrees tree = true := by
  have hdistinct : node.Distinct := by
    intro inner entries hentries
    apply htree (place ++ [key] ++ inner) entries
    rw [entriesAt?, lookup?_append, hnode]
    exact hentries
  have hafter := (htree.eraseAt herased).insertAt hdistinct hstored
  have hwithout := (eraseAt_done herased).1
  obtain ⟨hdiffers, -, hbelow⟩ := insertAt_done hstored
  refine agrees_of_alike hafter htree fun q => ?_
  by_cases hq : place ++ [key] <+: q
  · obtain ⟨rest, rfl⟩ := hq
    rw [hbelow, lookup?_append, hnode, Option.bind_some]
  · rw [hdiffers.labels q hq, hwithout.labels q hq]

/-- In a well-formed tree a node has the last name of its place. -/
theorem Named.name_eq (htree : tree.Named) {node : Node}
    (hnode : tree.lookup? (place ++ [key]) = some node) : node.name = key := by
  rw [lookup?_snoc] at hnode
  obtain ⟨entries, hentries, hentry⟩ := Option.bind_eq_some_iff.mp hnode
  exact ((htree.entriesAt? hentries).2 _ (Table.mem_of_get?_eq_some hentry)).2

theorem rename_rename (first second : String) (node : Node) :
    (node.rename first).rename second = node.rename second := by
  cases node <;> rfl

theorem rename_name (node : Node) : node.rename node.name = node := by
  cases node <;> rfl

/-- A node is taken away from one place and stored at another, where nothing was. -/
structure Moved (home : List String) (key : String) (place : List String) (name : String)
    (node tree without after : Node) : Prop where
  found : tree.lookup? (home ++ [key]) = some node
  free : tree.lookup? (place ++ [name]) = none
  outside : ¬ home ++ [key] <+: place ++ [name]
  erased : tree.eraseAt home key = .ok without
  stored : without.insertAt place name (node.rename name) = .ok after

namespace Moved

variable {home place : List String} {key name : String} {node tree without after : Node}

/-- Nothing was at the target, so it is not above the source. -/
theorem beside (h : Moved home key place name node tree without after) :
    ¬ place ++ [name] <+: home ++ [key] := by
  intro habove
  have hthere := isSome_lookup?_of_isPrefix habove (Option.isSome_of_eq_some h.found)
  simp [h.free] at hthere

theorem gone (h : Moved home key place name node tree without after) (htree : tree.Distinct) :
    after.lookup? (home ++ [key]) = none := by
  rw [(insertAt_done h.stored).1.nodes _ h.beside h.outside]
  simpa using lookup?_of_eraseAt htree h.erased []

/-- The directory that the node came from is still there. -/
theorem isSome_home (h : Moved home key place name node tree without after) :
    (after.entriesAt? home).isSome := by
  obtain ⟨-, entries, -, -, hfresh⟩ := eraseAt_done h.erased
  have habove : ¬ place ++ [name] <+: home := fun hbelow =>
    h.beside (hbelow.trans (List.prefix_append home [key]))
  rw [isSome_entriesAt?_eq ((insertAt_done h.stored).1.labels home habove), hfresh]
  rfl

theorem erase_back (h : Moved home key place name node tree without after) :
    after.eraseAt place name = .ok without := by
  apply eraseAt_insertAt _ h.stored
  simpa [h.free] using (eraseAt_done h.erased).1.labels _ h.outside

theorem store_back (h : Moved home key place name node tree without after)
    (htree : tree.Distinct) :
    ∃ back, without.insertAt home key node = .ok back ∧ back.agrees tree = true := by
  obtain ⟨-, entries, -, -, hfresh⟩ := eraseAt_done h.erased
  obtain ⟨back, hback⟩ := exists_insertAt (Option.isSome_of_eq_some hfresh) key node
  exact ⟨back, hback, agrees_insertAt_eraseAt htree h.found h.erased hback⟩

end Moved

end Node

/-! ### Nodes that were made -/

namespace Edit

variable {tree : Node} {cwd : List String} {e : Edit}

/-- Where nothing is, an edit is refused or stores a node. -/
theorem effect_missing (name : String) (parent : Bool) (e : Edit) :
    (∃ error, e.effect name parent none = .refuses error) ∨
      ∃ node, e.effect name parent none = .stores node := by
  cases parent <;> cases e <;> simp [effect, replace]

/-- An edit that succeeds where nothing was has stored a node there. -/
theorem exists_stored (hsucceeds : (e.perform tree cwd).succeeds = true)
    (hmissing : tree.lookup? (Path.resolve cwd e.path) = none) :
    ∃ place name node, Path.resolve cwd e.path = place ++ [name] ∧
      tree.insertAt place name node = .ok ((e.perform tree cwd).after tree) := by
  rcases List.eq_nil_or_concat' (Path.resolve cwd e.path) with hroot | ⟨place, name, hpath⟩
  · -- the root is always there
    rw [hroot] at hmissing
    cases hmissing
  · rw [hpath] at hmissing
    rw [perform_eq hpath, hmissing] at hsucceeds ⊢
    rcases effect_missing name (tree.entriesAt? place).isSome e with
      ⟨error, heffect⟩ | ⟨node, heffect⟩
    · rw [heffect] at hsucceeds
      cases hsucceeds
    · rw [heffect, Effect.act] at hsucceeds ⊢
      cases hstored : tree.insertAt place name node with
      | error breakage =>
          rw [hstored] at hsucceeds
          cases hsucceeds
      | ok after => exact ⟨place, name, node, hpath, hstored⟩

end Edit

namespace Files

variable {tree : Node} {cwd : List String}

/-- A node that is there is removed with everything below it. -/
theorem rm_eq {path name : String} {place : List String} {node : Node}
    (hpath : Path.resolve cwd path = place ++ [name])
    (hnode : tree.lookup? (place ++ [name]) = some node) :
    rm tree cwd path true = do return .changed (← tree.eraseAt place name) := by
  change (Edit.rm path true).perform tree cwd = _
  rw [Edit.perform_eq hpath, hnode]
  simp [Edit.effect, Effect.act]

/-- What an edit has made is removed without a trace. -/
theorem rm_made {e : Edit} (hsucceeds : (e.perform tree cwd).succeeds = true)
    (hmissing : tree.lookup? (Path.resolve cwd e.path) = none) :
    rm ((e.perform tree cwd).after tree) cwd e.path true = .ok (.changed tree) := by
  obtain ⟨place, name, node, hpath, hstored⟩ := Edit.exists_stored hsucceeds hmissing
  rw [rm_eq hpath (Node.lookup?_of_insertAt hstored)]
  rw [hpath] at hmissing
  rw [Node.eraseAt_insertAt hmissing hstored]
  rfl

/-! ### Nodes that were moved -/

/-- A move to a free place takes the node away and stores it there. -/
theorem mv_eq {source destination key name : String} {home place : List String} {node : Node}
    (hsource : Path.resolve cwd source = home ++ [key])
    (hgoal : target tree (home ++ [key]) (Path.resolve cwd destination) = place ++ [name])
    (hnode : tree.lookup? (home ++ [key]) = some node)
    (houtside : ¬ home ++ [key] <+: place ++ [name])
    (hplace : (tree.entriesAt? place).isSome)
    (hfree : tree.lookup? (place ++ [name]) = none) :
    mv tree cwd source destination = do
      let without ← tree.eraseAt home key
      return .changed (← without.insertAt place name (node.rename name)) := by
  have hother : place ++ [name] ≠ home ++ [key] := fun hsame =>
    houtside (hsame ▸ List.prefix_rfl)
  obtain ⟨entries, hentries⟩ := Option.isSome_iff_exists.mp hplace
  have hfile : holdsDirectory entries name = false := by
    rw [Node.lookup?_snoc, hentries, Option.bind_some] at hfree
    simp [holdsDirectory, hfree]
  have hbeside : (home ++ [key]).isPrefixOf (place ++ [name]) = false := by
    simpa [← List.isPrefixOf_iff_prefix] using houtside
  simp only [mv, hsource, hnode, hgoal, if_neg hother, lastOf?_snoc, hbeside, Bool.false_eq_true,
    if_false, hentries, hfile]

/-- A move that succeeds has moved a node, unless its target is the source itself. -/
theorem mv_moved {source destination : String}
    (hsucceeds : (mv tree cwd source destination).succeeds = true) :
    let s := Path.resolve cwd source
    let d := target tree s (Path.resolve cwd destination)
    d ≠ s → tree.lookup? d = none → ∃ home key place name node without,
      s = home ++ [key] ∧ d = place ++ [name] ∧
        Node.Moved home key place name node tree without
          ((mv tree cwd source destination).after tree) := by
  intro s d hother hfree
  obtain ⟨outcome, hdone, hsuccess⟩ := Command.exists_of_succeeds hsucceeds
  obtain ⟨node, hnode, hmoved⟩ := mv_done hdone hsuccess
  rcases hmoved with ⟨-, hgoal⟩ | ⟨home, key, place, name, without, after, rfl, hsource, hgoal,
    houtside, -, herased, hstored⟩
  · exact absurd hgoal hother
  · rw [hsource] at hnode
    rw [show d = place ++ [name] from hgoal] at hfree
    rw [hdone]
    exact ⟨home, key, place, name, node, without, hsource, hgoal,
      ⟨hnode, hfree, houtside, herased, hstored⟩⟩

/-- What was moved to a free place is moved back by the absolute paths of the two places. -/
theorem mv_back (htree : tree.WellFormed) {home place : List String} {key name : String}
    {node without after : Node} (h : Node.Moved home key place name node tree without after)
    (hsource : ∀ name ∈ home ++ [key], Path.Canonical name)
    (htarget : ∀ other ∈ place ++ [name], Path.Canonical other) (other : List String) :
    ∃ back, mv after other (Path.format (place ++ [name])) (Path.format (home ++ [key])) =
        .ok (.changed back) ∧ back.agrees tree = true := by
  obtain ⟨back, hback, hagrees⟩ := h.store_back htree.distinct
  have hgone := h.gone htree.distinct
  -- nothing is at the old place, so the way back is not redirected
  have hgoal : target after (place ++ [name]) (Path.resolve other (Path.format (home ++ [key]))) =
      home ++ [key] := by
    rw [Path.resolve_format hsource]
    simp [target, hgone]
  have hname : (node.rename name).rename key = node := by
    rw [Node.rename_rename, ← htree.named.name_eq h.found, Node.rename_name]
  refine ⟨back, ?_, hagrees⟩
  rw [mv_eq (Path.resolve_format htarget other) hgoal (Node.lookup?_of_insertAt h.stored) h.beside
    h.isSome_home hgone, h.erase_back, hname]
  change (do return Outcome.changed (← without.insertAt home key node) : Command) = _
  rw [hback]
  rfl

/-- Making and moving can be taken back. Where a directory was made, or anything where nothing was
before, removing it gives back the very tree; what was moved to a free place is moved back, and the
tree is the same up to the order of entries. -/
theorem made_or_moved_undone (htree : tree.WellFormed) (hcwd : ∀ name ∈ cwd, Path.Canonical name) :
    (∀ path, (mkdir tree cwd path).succeeds = true →
        rm ((mkdir tree cwd path).after tree) cwd path true = .ok (.changed tree)) ∧
      (∀ e : Edit, (e.perform tree cwd).succeeds = true →
        tree.lookup? (Path.resolve cwd e.path) = none →
        rm ((e.perform tree cwd).after tree) cwd e.path true = .ok (.changed tree)) ∧
      ∀ source destination, (mv tree cwd source destination).succeeds = true →
        let s := Path.resolve cwd source
        let d := target tree s (Path.resolve cwd destination)
        d ≠ s → tree.lookup? d = none → ∀ other, ∃ back,
          mv ((mv tree cwd source destination).after tree) other (Path.format d) (Path.format s) =
              .ok (.changed back) ∧
            back.agrees tree = true := by
  refine ⟨fun path hsucceeds => ?_, fun e hsucceeds hmissing => rm_made hsucceeds hmissing, ?_⟩
  · obtain ⟨outcome, hdone, hsuccess⟩ := Command.exists_of_succeeds hsucceeds
    obtain ⟨place, name, after, -, hpath, hmissing, -⟩ := mkdir_done hdone hsuccess
    exact rm_made (e := .mkdir path) hsucceeds (hpath ▸ hmissing)
  · intro source destination hsucceeds s d hother hfree other
    have hsource : ∀ name ∈ s, Path.Canonical name := Path.canonical_resolve hcwd source
    have htarget : ∀ name ∈ d, Path.Canonical name :=
      canonical_target hsource (Path.canonical_resolve hcwd destination)
    obtain ⟨home, key, place, name, node, without, hs, hd, hmoved⟩ :=
      mv_moved hsucceeds hother hfree
    have hback := mv_back htree hmoved (hs ▸ hsource) (hd ▸ htarget) other
    rwa [← hs, ← hd] at hback

/-- A directory is installed above home and removed again. A file is moved into a directory beside
it and back, and is then the last entry of its old directory. -/
theorem made_or_moved_undone_home :
    let tools := Edit.install "../tools" (.directory "kit" [("run", .file "run" "" none)] none)
      "install"
    let after := (tools.perform defaultTree Path.home).after defaultTree
    let moved := (mv defaultTree Path.home "readme.txt" "projects").after defaultTree
    rm after Path.home "../tools" true = .ok (.changed defaultTree) ∧
      ∃ back, mv moved ["bin"] "/home/guest/projects/readme.txt" "/home/guest/readme.txt" =
          .ok (.changed back) ∧
        back.agrees defaultTree = true ∧
        (back.entriesAt? Path.home).map Table.keys =
          some ["secrets.txt", "todo.list", "projects", "readme.txt"] := by
  intro tools after moved
  have hinstalls : (tools.perform defaultTree Path.home).succeeds = true := by decide +kernel
  have hmissing : defaultTree.lookup? (Path.resolve Path.home "../tools") = none := rfl
  have hmoves : (mv defaultTree Path.home "readme.txt" "projects").succeeds = true := by
    decide +kernel
  have hsource : Path.resolve Path.home "readme.txt" = ["home", "guest", "readme.txt"] := by
    decide +kernel
  have hgoal : target defaultTree ["home", "guest", "readme.txt"]
      (Path.resolve Path.home "projects") = ["home", "guest", "projects", "readme.txt"] := by
    decide +kernel
  obtain ⟨-, hmade, hback⟩ :=
    made_or_moved_undone defaultTree_wellFormed Path.canonical_of_mem_home
  have hback := hback "readme.txt" "projects" hmoves
  simp only [hsource, hgoal] at hback
  obtain ⟨back, hdone, hagrees⟩ := hback (by decide) rfl ["bin"]
  refine ⟨hmade tools hinstalls hmissing, back, hdone, hagrees, ?_⟩
  cases hdone
  decide +kernel

end Files

end ToyC
