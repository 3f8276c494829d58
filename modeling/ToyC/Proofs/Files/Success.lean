import ToyC.Proofs.Files.Place

/-!
What a command has done where it succeeds. Each command either stores one node
under the last name of a place, or takes one entry away, or both; a node that is
stored never replaces a directory. Later statements about successful commands
rest on these and not on the checks that the commands make.
-/

namespace ToyC

/-- Two steps that come to an end, one after the other. -/
theorem Breakage.of_bind {α β : Type} {first : Except Breakage α} {next : α → Except Breakage β}
    {b : β} (h : first >>= next = .ok b) : ∃ a, first = .ok a ∧ next a = .ok b := by
  cases first with
  | error breakage => cases h
  | ok a => exact ⟨a, rfl, h⟩

/-- The last step of a command that makes a tree of its own. -/
theorem Command.changed_of_ok {result : Except Breakage Node} {outcome : Outcome}
    (h : (do return Outcome.changed (← result) : Command) = .ok outcome) :
    ∃ after, result = .ok after ∧ outcome = .changed after := by
  obtain ⟨after, hafter, hdone⟩ := Breakage.of_bind h
  cases hdone
  exact ⟨after, hafter, rfl⟩

/-- Whether a command came to its end and did not fail. -/
def Command.succeeds : Command → Bool
  | .ok outcome => outcome.error?.isNone
  | .error _ => false

/-- The tree after a command. -/
def Command.after (before : Node) : Command → Node
  | .ok outcome => outcome.tree before
  | .error _ => before

theorem Command.exists_of_succeeds {command : Command} (h : command.succeeds = true) :
    ∃ outcome, command = .ok outcome ∧ outcome.error? = none := by
  cases command with
  | error breakage => cases h
  | ok outcome => exact ⟨outcome, rfl, Option.isNone_iff_eq_none.mp h⟩

namespace Files

variable {tree : Node} {cwd : List String} {outcome : Outcome}

/-- What the check for a directory under a name rules out. -/
theorem isDirectory_eq_false {place : List String} {name : String} {entries : Table Node}
    (hentries : tree.entriesAt? place = some entries) (h : ¬ holdsDirectory entries name = true)
    {there : Node} (hthere : tree.lookup? (place ++ [name]) = some there) :
    there.isDirectory = false := by
  rw [Node.lookup?_snoc, hentries, Option.bind_some] at hthere
  simpa [holdsDirectory, hthere] using h

theorem mkdir_done {path : String} (h : mkdir tree cwd path = .ok outcome)
    (hsuccess : outcome.error? = none) :
    ∃ place name after, outcome = .changed after ∧ Path.resolve cwd path = place ++ [name] ∧
      tree.lookup? (place ++ [name]) = none ∧
      tree.insertAt place name (.directory name [] none) = .ok after := by
  unfold mkdir at h
  dsimp only at h
  split at h
  · cases h
    cases hsuccess
  · rename_i place name hlast
    split at h
    · cases h
      cases hsuccess
    · rename_i entries hentries
      split at h
      · cases h
        cases hsuccess
      · rename_i hnew
        obtain ⟨after, hafter, rfl⟩ := Command.changed_of_ok h
        refine ⟨place, name, after, rfl, lastOf?_eq_some_iff.mp hlast, ?_, hafter⟩
        rw [Node.lookup?_snoc, hentries, Option.bind_some]
        simpa [Table.contains] using hnew

/-- A file that is touched is made only where nothing is. -/
theorem touch_done {path : String} (h : touch tree cwd path = .ok outcome)
    (hsuccess : outcome.error? = none) :
    ((tree.lookup? (Path.resolve cwd path)).isSome ∧ outcome = .unchanged) ∨
    ∃ place name after, outcome = .changed after ∧ Path.resolve cwd path = place ++ [name] ∧
      tree.lookup? (place ++ [name]) = none ∧
      tree.insertAt place name (.file name "" none) = .ok after := by
  unfold touch at h
  dsimp only at h
  split at h
  · rename_i hthere
    cases h
    exact Or.inl ⟨hthere, rfl⟩
  · rename_i hmissing
    split at h
    · rename_i hlast
      -- the root is always there
      have hroot : Path.resolve cwd path = [] := by
        simpa [lastOf?] using hlast
      simp [hroot, Node.lookup?] at hmissing
    · rename_i place name hlast
      have hsegments := lastOf?_eq_some_iff.mp hlast
      split at h
      · cases h
        cases hsuccess
      · obtain ⟨after, hafter, rfl⟩ := Command.changed_of_ok h
        refine Or.inr ⟨place, name, after, rfl, hsegments, ?_, hafter⟩
        simpa [hsegments] using hmissing

theorem rm_done {path : String} {recursive : Bool} (h : rm tree cwd path recursive = .ok outcome)
    (hsuccess : outcome.error? = none) :
    ∃ place name after, outcome = .changed after ∧ Path.resolve cwd path = place ++ [name] ∧
      tree.eraseAt place name = .ok after := by
  unfold rm at h
  dsimp only at h
  split at h
  · cases h
    cases hsuccess
  · rename_i place name hlast
    split at h
    · cases h
      cases hsuccess
    · split at h
      · cases h
        cases hsuccess
      · obtain ⟨after, hafter, rfl⟩ := Command.changed_of_ok h
        exact ⟨place, name, after, rfl, lastOf?_eq_some_iff.mp hlast, hafter⟩

theorem install_done {path : String} {node : Node} {command : String}
    (h : install tree cwd path node command = .ok outcome) (hsuccess : outcome.error? = none) :
    ∃ place name after, outcome = .changed after ∧ Path.resolve cwd path = place ++ [name] ∧
      (∀ there, tree.lookup? (place ++ [name]) = some there → there.isDirectory = false) ∧
      tree.insertAt place name (node.rename name) = .ok after := by
  unfold install at h
  dsimp only at h
  split at h
  · cases h
    cases hsuccess
  · rename_i place name hlast
    split at h
    · cases h
      cases hsuccess
    · rename_i entries hentries
      split at h
      · cases h
        cases hsuccess
      · rename_i hfile
        obtain ⟨after, hafter, rfl⟩ := Command.changed_of_ok h
        exact ⟨place, name, after, rfl, lastOf?_eq_some_iff.mp hlast,
          fun _ => isDirectory_eq_false hentries hfile, hafter⟩

/-- A copy is stored at its target under the last name of the target. -/
theorem cp_done {source destination : String} (h : cp tree cwd source destination = .ok outcome)
    (hsuccess : outcome.error? = none) :
    ∃ node place name after, outcome = .changed after ∧
      tree.lookup? (Path.resolve cwd source) = some node ∧
      target tree (Path.resolve cwd source) (Path.resolve cwd destination) = place ++ [name] ∧
      ¬ Path.resolve cwd source <+: place ++ [name] ∧
      (∀ there, tree.lookup? (place ++ [name]) = some there → there.isDirectory = false) ∧
      tree.insertAt place name (node.rename name) = .ok after := by
  unfold cp at h
  dsimp only at h
  split at h
  · cases h
    cases hsuccess
  · rename_i node hnode
    split at h
    · cases h
      cases hsuccess
    · split at h
      · cases h
        cases hsuccess
      · rename_i houtside
        split at h
        · cases h
          cases hsuccess
        · rename_i place name hlast
          have htarget := lastOf?_eq_some_iff.mp hlast
          split at h
          · cases h
            cases hsuccess
          · rename_i entries hentries
            split at h
            · cases h
              cases hsuccess
            · rename_i hfile
              obtain ⟨after, hafter, rfl⟩ := Command.changed_of_ok h
              refine ⟨node, place, name, after, rfl, hnode, htarget, ?_,
                fun _ => isDirectory_eq_false hentries hfile, hafter⟩
              rw [← htarget]
              simpa [List.isPrefixOf_iff_prefix] using houtside

/-- A node that is moved is taken away from its place first, and then stored at its target. Moved to
its own place, it stays. -/
theorem mv_done {source destination : String} (h : mv tree cwd source destination = .ok outcome)
    (hsuccess : outcome.error? = none) :
    ∃ node, tree.lookup? (Path.resolve cwd source) = some node ∧
      let goal := target tree (Path.resolve cwd source) (Path.resolve cwd destination)
      (outcome = .unchanged ∧ goal = Path.resolve cwd source ∨
      ∃ home key place name without after, outcome = .changed after ∧
        Path.resolve cwd source = home ++ [key] ∧ goal = place ++ [name] ∧
        ¬ home ++ [key] <+: place ++ [name] ∧
        (∀ there, tree.lookup? (place ++ [name]) = some there → there.isDirectory = false) ∧
        tree.eraseAt home key = .ok without ∧
        without.insertAt place name (node.rename name) = .ok after) := by
  unfold mv at h
  dsimp only at h
  split at h
  · cases h
    cases hsuccess
  · rename_i node hnode
    refine ⟨node, hnode, ?_⟩
    dsimp only
    split at h
    · rename_i hsame
      cases h
      exact Or.inl ⟨rfl, hsame⟩
    · split at h
      · cases h
        cases hsuccess
      · rename_i home key hsource
        split at h
        · cases h
          cases hsuccess
        · rename_i houtside
          split at h
          · cases h
            cases hsuccess
          · rename_i place name hlast
            have htarget := lastOf?_eq_some_iff.mp hlast
            split at h
            · cases h
              cases hsuccess
            · rename_i entries hentries
              split at h
              · cases h
                cases hsuccess
              · rename_i hfile
                obtain ⟨without, hwithout, hrest⟩ := Breakage.of_bind h
                obtain ⟨after, hafter, rfl⟩ := Command.changed_of_ok hrest
                refine Or.inr ⟨home, key, place, name, without, after, rfl,
                  lastOf?_eq_some_iff.mp hsource, htarget, ?_,
                  fun _ => isDirectory_eq_false hentries hfile, hwithout, hafter⟩
                rw [← htarget, ← lastOf?_eq_some_iff.mp hsource]
                simpa [List.isPrefixOf_iff_prefix] using houtside

end Files

end ToyC
