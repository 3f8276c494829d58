import ToyC.Proofs.Files.WellFormed
import ToyC.Toolchain

/-!
Sessions at a file tree: a tree, a working directory, and the commands that change
either. A command that fails leaves the session as it was. The main statement is
that no command ever breaks off in a well-formed session, and that every session
that commands can reach is well formed, with the root under its first name.
-/

namespace ToyC

/-- A file tree and the working directory in it. -/
structure Session where
  tree : Node
  cwd : List String

/-- A command with what the user typed. -/
inductive Operation where
  | mkdir (path : String)
  | touch (path : String)
  | rm (path : String) (recursive : Bool)
  | cp (source destination : String)
  | mv (source destination : String)
  | writeFile (path content : String)
  | install (path : String) (node : Node) (command : String)
  | compileFile (source output : String)
  | changeDirectory (path : Option String)

/-- The node that an operation brings along is named below its root; the root takes the name of
the place that it is installed at. -/
def Operation.Sound : Operation → Prop
  | .install _ node _ => node.Named
  | _ => True

namespace Session

/-- The session with the tree that a command leaves. -/
def replaceTree (s : Session) (command : Command) : Except Breakage Session :=
  command.map fun outcome => { s with tree := outcome.tree s.tree }

/-- The session after an operation. -/
def perform (s : Session) : Operation → Except Breakage Session
  | .mkdir path => s.replaceTree (Files.mkdir s.tree s.cwd path)
  | .touch path => s.replaceTree (Files.touch s.tree s.cwd path)
  | .rm path recursive => s.replaceTree (Files.rm s.tree s.cwd path recursive)
  | .cp source destination => s.replaceTree (Files.cp s.tree s.cwd source destination)
  | .mv source destination => s.replaceTree (Files.mv s.tree s.cwd source destination)
  | .writeFile path content => s.replaceTree (Files.writeFile s.tree s.cwd path content)
  | .install path node command => s.replaceTree (Files.install s.tree s.cwd path node command)
  | .compileFile source output => s.replaceTree (compileFile s.tree s.cwd source output)
  | .changeDirectory path =>
    match Files.changeDirectory s.tree s.cwd path with
    | .ok cwd => .ok { s with cwd }
    | .error _ => .ok s

/-- The sessions after each operation of a run, in order. -/
def history (s : Session) : List Operation → Except Breakage (List Session)
  | [] => .ok []
  | op :: rest => do
    let next ← s.perform op
    let later ← next.history rest
    return next :: later

/-- A well-formed tree, and a working directory of canonical names; it need not exist. -/
structure WellFormed (s : Session) : Prop where
  tree : s.tree.WellFormed
  cwd : ∀ name ∈ s.cwd, Path.Canonical name

end Session

/-! ### Commands on a well-formed tree -/

/-- A command does not break off, and leaves a well-formed tree with the root's old name. -/
def Command.Keeps (tree : Node) (command : Command) : Prop :=
  ∃ outcome, command = .ok outcome ∧ (outcome.tree tree).WellFormed ∧
    (outcome.tree tree).name = tree.name

namespace Command

variable {tree : Node}

theorem keeps_failed (h : tree.WellFormed) (error : FileError) :
    Keeps tree (.ok (.failed error)) :=
  ⟨_, rfl, h, rfl⟩

theorem keeps_unchanged (h : tree.WellFormed) : Keeps tree (.ok .unchanged) :=
  ⟨_, rfl, h, rfl⟩

/-- Commands that store one node: it is named, and its name is the key that it is stored under. -/
theorem keeps_insertAt (h : tree.WellFormed) {place : List String} {entries : Table Node}
    (hplace : tree.entriesAt? place = some entries) {key : String} (hkey : Path.Canonical key)
    {child : Node} (hname : child.name = key) (hchild : child.Named) :
    Keeps tree (do return .changed (← tree.insertAt place key child)) := by
  obtain ⟨after, hafter, hwell, hroot⟩ := h.insertAt hplace hkey hname hchild
  exact ⟨.changed after, by rw [hafter]; rfl, hwell, hroot⟩

end Command

namespace Files

variable {tree : Node} {cwd : List String}

theorem mkdir_keeps (h : tree.WellFormed) (hcwd : ∀ name ∈ cwd, Path.Canonical name)
    (path : String) : (mkdir tree cwd path).Keeps tree := by
  have hnames := Path.canonical_resolve hcwd path
  unfold mkdir
  dsimp only
  split
  · exact Command.keeps_failed h _
  · rename_i place name hlast
    rw [lastOf?_eq_some_iff.mp hlast] at hnames
    split
    · exact Command.keeps_failed h _
    · rename_i entries hentries
      split
      · exact Command.keeps_failed h _
      · exact Command.keeps_insertAt h hentries (hnames name (by simp)) rfl
          (.directory (by simp [Table.keys]) (by simp) (by simp))

theorem touch_keeps (h : tree.WellFormed) (hcwd : ∀ name ∈ cwd, Path.Canonical name)
    (path : String) : (touch tree cwd path).Keeps tree := by
  have hnames := Path.canonical_resolve hcwd path
  unfold touch
  dsimp only
  split
  · exact Command.keeps_unchanged h
  · split
    · exact Command.keeps_unchanged h
    · rename_i place name hlast
      rw [lastOf?_eq_some_iff.mp hlast] at hnames
      split
      · exact Command.keeps_failed h _
      · rename_i entries hentries
        exact Command.keeps_insertAt h hentries (hnames name (by simp)) rfl (.file ..)

theorem rm_keeps (h : tree.WellFormed) (path : String) (recursive : Bool) :
    (rm tree cwd path recursive).Keeps tree := by
  unfold rm
  dsimp only
  split
  · exact Command.keeps_failed h _
  · rename_i place name hlast
    split
    · exact Command.keeps_failed h _
    · rename_i node hnode
      split
      · exact Command.keeps_failed h _
      · rw [lastOf?_eq_some_iff.mp hlast] at hnode
        obtain ⟨after, hafter, hwell, hroot, _⟩ :=
          h.eraseAt (Option.isSome_of_eq_some hnode)
        exact ⟨.changed after, by rw [hafter]; rfl, hwell, hroot⟩

theorem install_keeps (h : tree.WellFormed) (hcwd : ∀ name ∈ cwd, Path.Canonical name)
    (path : String) {node : Node} (hnode : node.Named) (command : String) :
    (install tree cwd path node command).Keeps tree := by
  have hnames := Path.canonical_resolve hcwd path
  unfold install
  dsimp only
  split
  · exact Command.keeps_failed h _
  · rename_i place name hlast
    rw [lastOf?_eq_some_iff.mp hlast] at hnames
    split
    · exact Command.keeps_failed h _
    · rename_i entries hentries
      split
      · exact Command.keeps_failed h _
      · exact Command.keeps_insertAt h hentries (hnames name (by simp)) (node.name_rename name)
          (hnode.rename name)

theorem compileFile_keeps (h : tree.WellFormed) (hcwd : ∀ name ∈ cwd, Path.Canonical name)
    (source output : String) : (compileFile tree cwd source output).Keeps tree := by
  unfold compileFile
  split
  · exact Command.keeps_failed h _
  · exact install_keeps h hcwd output (.file ..) "gcc"

/-- The target of a copy or a move is made of canonical names: those of the destination, and
perhaps the last one of the source. -/
theorem canonical_target {source destination : List String}
    (hsource : ∀ name ∈ source, Path.Canonical name)
    (hdestination : ∀ name ∈ destination, Path.Canonical name) :
    ∀ name ∈ target tree source destination, Path.Canonical name := by
  unfold target
  split
  · rename_i place name _ _ _ hlast hdirectory
    rw [lastOf?_eq_some_iff.mp hlast] at hsource
    intro other hother
    rcases List.mem_append.mp hother with hold | hnew
    · exact hdestination other hold
    · rw [List.mem_singleton.mp hnew]
      exact hsource name (by simp)
  · exact hdestination

theorem cp_keeps (h : tree.WellFormed) (hcwd : ∀ name ∈ cwd, Path.Canonical name)
    (source destination : String) : (cp tree cwd source destination).Keeps tree := by
  have hnames := @canonical_target tree _ _ (Path.canonical_resolve hcwd source)
    (Path.canonical_resolve hcwd destination)
  unfold cp
  dsimp only
  split
  · exact Command.keeps_failed h _
  · rename_i node hnode
    split
    · exact Command.keeps_failed h _
    · split
      · exact Command.keeps_failed h _
      · split
        · exact Command.keeps_failed h _
        · rename_i place name hlast
          rw [lastOf?_eq_some_iff.mp hlast] at hnames
          split
          · exact Command.keeps_failed h _
          · rename_i entries hentries
            split
            · exact Command.keeps_failed h _
            · exact Command.keeps_insertAt h hentries (hnames name (by simp))
                (node.name_rename name) ((h.named.lookup? hnode).rename name)

theorem mv_keeps (h : tree.WellFormed) (hcwd : ∀ name ∈ cwd, Path.Canonical name)
    (source destination : String) : (mv tree cwd source destination).Keeps tree := by
  have hnames := @canonical_target tree _ _ (Path.canonical_resolve hcwd source)
    (Path.canonical_resolve hcwd destination)
  unfold mv
  dsimp only
  split
  · exact Command.keeps_failed h _
  · rename_i node hnode
    split
    · exact Command.keeps_unchanged h
    · split
      · exact Command.keeps_failed h _
      · rename_i home key hsource
        rw [lastOf?_eq_some_iff.mp hsource] at hnode
        split
        · exact Command.keeps_failed h _
        · rename_i hprefix
          split
          · exact Command.keeps_failed h _
          · rename_i place name hlast
            rw [lastOf?_eq_some_iff.mp hlast] at hnames hprefix
            rw [lastOf?_eq_some_iff.mp hsource] at hprefix
            split
            · exact Command.keeps_failed h _
            · rename_i entries hentries
              split
              · exact Command.keeps_failed h _
              · -- the target's directory is not inside the source, so it is still there once
                -- the source has been taken away
                have houtside : ¬ home ++ [key] <+: place := by
                  intro hinside
                  exact hprefix (List.isPrefixOf_iff_prefix.mpr
                    (hinside.trans (List.prefix_append place [name])))
                obtain ⟨without, hwithout, hwell, hroot, hother⟩ :=
                  h.eraseAt (Option.isSome_of_eq_some hnode)
                obtain ⟨fresh, hfresh⟩ := Option.isSome_iff_exists.mp
                  (hother place houtside (Option.isSome_of_eq_some hentries))
                obtain ⟨after, hafter, hdone, hname⟩ := hwell.insertAt hfresh
                  (hnames name (by simp)) (node.name_rename name)
                  ((h.named.lookup? hnode).rename name)
                refine ⟨.changed after, ?_, hdone, hname.trans hroot⟩
                rw [hwithout]
                change (do
                  return Outcome.changed (← without.insertAt place name (node.rename name)) :
                    Command) = _
                rw [hafter]
                rfl

theorem changeDirectory_canonical (hcwd : ∀ name ∈ cwd, Path.Canonical name)
    {path : Option String} {after : List String}
    (h : changeDirectory tree cwd path = .ok after) : ∀ name ∈ after, Path.Canonical name := by
  have hsegments : ∀ name ∈ ((given? path).map (Path.resolve cwd)).getD Path.home,
      Path.Canonical name := by
    cases given? path with
    | none => exact Path.canonical_of_mem_home
    | some typed => exact Path.canonical_resolve hcwd typed
  unfold changeDirectory at h
  dsimp only at h
  split at h
  · cases h
  · split at h
    · cases h
      exact hsegments
    · cases h

end Files

/-! ### Runs -/

namespace Session

variable {s : Session}

theorem WellFormed.replaceTree (h : s.WellFormed) {command : Command}
    (hkeeps : command.Keeps s.tree) :
    ∃ next, s.replaceTree command = .ok next ∧ next.WellFormed ∧ next.tree.name = s.tree.name := by
  obtain ⟨outcome, rfl, hwell, hname⟩ := hkeeps
  exact ⟨_, rfl, ⟨hwell, h.cwd⟩, hname⟩

/-- One operation: it does not break off, and the session stays well formed. -/
theorem WellFormed.perform (h : s.WellFormed) {op : Operation} (hop : op.Sound) :
    ∃ next, s.perform op = .ok next ∧ next.WellFormed ∧ next.tree.name = s.tree.name := by
  cases op with
  | mkdir path => exact h.replaceTree (Files.mkdir_keeps h.tree h.cwd path)
  | touch path => exact h.replaceTree (Files.touch_keeps h.tree h.cwd path)
  | rm path recursive => exact h.replaceTree (Files.rm_keeps h.tree path recursive)
  | cp source destination => exact h.replaceTree (Files.cp_keeps h.tree h.cwd source destination)
  | mv source destination => exact h.replaceTree (Files.mv_keeps h.tree h.cwd source destination)
  | writeFile path content =>
      exact h.replaceTree (Files.install_keeps h.tree h.cwd path (.file ..) "write")
  | install path node command =>
      exact h.replaceTree (Files.install_keeps h.tree h.cwd path hop command)
  | compileFile source output =>
      exact h.replaceTree (Files.compileFile_keeps h.tree h.cwd source output)
  | changeDirectory path =>
      cases hresult : Files.changeDirectory s.tree s.cwd path with
      | error error => exact ⟨s, by simp [Session.perform, hresult], h, rfl⟩
      | ok cwd =>
          exact ⟨{ s with cwd }, by simp [Session.perform, hresult],
            ⟨h.tree, Files.changeDirectory_canonical h.cwd hresult⟩, rfl⟩

/-- A run of any operations, with any paths, from a well-formed session: no operation breaks off,
and after each of them the tree is well formed, its root has the name that it had before the
run, and the working directory is made of canonical names. -/
theorem history_wellFormed (h : s.WellFormed) (ops : List Operation)
    (hops : ∀ op ∈ ops, op.Sound) :
    ∃ states, s.history ops = .ok states ∧ states.length = ops.length ∧
      ∀ state ∈ states, state.WellFormed ∧ state.tree.name = s.tree.name := by
  induction ops generalizing s with
  | nil => exact ⟨[], rfl, rfl, by simp⟩
  | cons op rest ih =>
      obtain ⟨next, hnext, hwell, hname⟩ := h.perform (hops op List.mem_cons_self)
      obtain ⟨later, hlater, hlength, hstates⟩ :=
        ih hwell (fun other hother => hops other (List.mem_cons_of_mem _ hother))
      refine ⟨next :: later, ?_, by simp [hlength], ?_⟩
      · simp [history, hnext, hlater, bind, Except.bind, pure, Except.pure]
      · intro state hstate
        rcases List.mem_cons.mp hstate with rfl | hrest
        · exact ⟨hwell, hname⟩
        · exact ⟨(hstates state hrest).1, (hstates state hrest).2.trans hname⟩

/-- From the tree that a session starts from: a file is moved into a directory and home is copied
below the root, a directory is installed whose own name no path could lead to, and a command
through a file fails. -/
theorem history_wellFormed_default :
    ∃ states, Session.history ⟨Files.defaultTree, Path.home⟩
        [.changeDirectory (some "projects/.."), .mv "readme.txt" "projects//", .cp "~" "/copy",
          .install "../tools" (.directory "a/b" [("run", .file "run" "" none)] none) "install",
          .mkdir "secrets.txt/below"] = .ok states ∧
      states.length = 5 ∧
      ∀ state ∈ states, state.WellFormed ∧ state.tree.name = "root" := by
  have hinstalled : (Node.directory "a/b" [("run", .file "run" "" none)] none).Named := by
    refine .directory (by simp [Table.keys]) ?_ ?_ <;> intro entry hentry <;>
      rw [List.mem_singleton.mp hentry]
    · exact ⟨by decide, rfl⟩
    · exact .file ..
  apply history_wellFormed (s := ⟨Files.defaultTree, Path.home⟩)
    ⟨Files.defaultTree_wellFormed, Path.canonical_of_mem_home⟩
  simpa [Operation.Sound] using hinstalled

end Session

end ToyC
