import ToyC.Proofs.Files.Stepwise

/-!
No request runs into a step that has no result, on any tree, from any working directory
and with any path: it comes to the result of the command as it is run, and where the
result is an error, the tree is the one from before. The checks that a command makes in
the tree that it is given are enough for the steps that it takes in the copy; for a move
that is so because the target's directory is not inside the node that is taken away.
-/

namespace ToyC

namespace Steps

/-! ### Commands come to their results -/

variable {tree : Node} {cwd : List String}

/-- A command that is run comes to an end, and step by step it comes to the same end. -/
def Follow (tree : Node) (command : Command) (steps : Steps Report) : Prop :=
  ∃ outcome, command = .ok outcome ∧ steps = .ok (outcome.report tree)

theorem follow_fail (reason : FileError.Reason) (command operand : String)
    (action detail : Option String) :
    Follow tree (.ok (.failed { reason, command, operand, action, detail }))
      (fail tree reason command operand action detail) :=
  ⟨_, rfl, rfl⟩

theorem follow_unchanged : Follow tree (.ok .unchanged) (.ok { tree }) :=
  ⟨_, rfl, rfl⟩

theorem follow_put {place : List String} {entries : Table Node}
    (h : tree.entriesAt? place = some entries) (name : String) (node : Node) :
    Follow tree (do return .changed (← tree.insertAt place name node))
      (put tree (place ++ [name]) name node) := by
  obtain ⟨after, hafter⟩ := Node.exists_insertAt (Option.isSome_of_eq_some h) name node
  refine ⟨.changed after, by rw [hafter]; rfl, ?_⟩
  simp [put, cloneAt_eq h, store_eq hafter, Outcome.report, Outcome.tree, Outcome.error?]

/-- The directory of a target is found by both, or by neither. -/
theorem follow_parent {place : List String} {name : String} {missing : Command}
    {next : Table Node → Command} {missing' : Steps Report} {next' : Node → Steps Report}
    (hmissing : Follow tree missing missing')
    (hnext : ∀ parent entries, parent.entries? = some entries →
      tree.entriesAt? place = some entries → Follow tree (next entries) (next' parent)) :
    Follow tree
      (match tree.entriesAt? place with
        | none => missing
        | some entries => next entries)
      (do match ← parentDirectory tree (place ++ [name]) with
        | none => missing'
        | some parent => next' parent) := by
  rcases parentDirectory_snoc tree place name with
    ⟨hparent, hentries⟩ | ⟨parent, entries, hparent, hthere, hentries⟩
  · rw [hparent, hentries]
    exact hmissing
  · rw [hparent, hentries]
    exact hnext parent entries hthere hentries

theorem mkdir_follows (path : String) :
    Follow tree (Files.mkdir tree cwd path) (mkdir tree cwd path) := by
  simp only [Files.mkdir, mkdir, resolve_eq, ok_bind]
  rcases List.eq_nil_or_concat' (Path.resolve cwd path) with hroot | ⟨place, name, hpath⟩
  · rw [hroot]
    exact follow_fail ..
  · rw [hpath, lastOf?_snoc, if_neg (List.append_ne_nil_of_right_ne_nil _ (by simp))]
    refine follow_parent (follow_fail ..) fun parent entries hthere hentries => ?_
    rw [hthere, lastName_snoc, need_some, ok_bind, ok_bind]
    cases Table.contains name entries with
    | true => exact follow_fail ..
    | false => exact follow_put hentries name _

theorem touch_follows (path : String) :
    Follow tree (Files.touch tree cwd path) (touch tree cwd path) := by
  simp only [Files.touch, touch, resolve_eq, walk_eq, ok_bind]
  cases hnode : (tree.lookup? (Path.resolve cwd path)).isSome with
  | true => exact follow_unchanged
  | false =>
      rcases List.eq_nil_or_concat' (Path.resolve cwd path) with hroot | ⟨place, name, hpath⟩
      · -- the root is always there
        rw [hroot] at hnode
        cases hnode
      · rw [hpath, lastOf?_snoc]
        refine follow_parent (follow_fail ..) fun parent entries _ hentries => ?_
        rw [lastName_snoc, ok_bind]
        exact follow_put hentries name _

theorem install_follows (path : String) (node : Node) (command : String) :
    Follow tree (Files.install tree cwd path node command)
      (install tree cwd path node command) := by
  simp only [Files.install, install, resolve_eq, ok_bind]
  rcases List.eq_nil_or_concat' (Path.resolve cwd path) with hroot | ⟨place, name, hpath⟩
  · rw [hroot]
    exact follow_fail ..
  · rw [hpath, lastOf?_snoc, if_neg (List.append_ne_nil_of_right_ne_nil _ (by simp))]
    refine follow_parent (follow_fail ..) fun parent entries hthere hentries => ?_
    rw [hthere, lastName_snoc, need_some, ok_bind, ok_bind]
    cases Files.holdsDirectory entries name with
    | true => exact follow_fail ..
    | false => exact follow_put hentries name _

/-- Where a node is, a directory is found around it with the node under its last name. -/
theorem entriesAt?_of_lookup? {place : List String} {name : String} {node : Node}
    (h : tree.lookup? (place ++ [name]) = some node) :
    ∃ entries, tree.entriesAt? place = some entries ∧ Table.get? name entries = some node := by
  rw [Node.lookup?_snoc] at h
  exact Option.bind_eq_some_iff.mp h

theorem rm_follows (path : String) (recursive : Bool) :
    Follow tree (Files.rm tree cwd path recursive) (rm tree cwd path recursive) := by
  simp only [Files.rm, rm, resolve_eq, ok_bind]
  rcases List.eq_nil_or_concat' (Path.resolve cwd path) with hroot | ⟨place, name, hpath⟩
  · rw [hroot]
    exact follow_fail ..
  · rw [hpath, lastOf?_snoc, if_neg (List.append_ne_nil_of_right_ne_nil _ (by simp)), walk_eq,
      ok_bind]
    cases hnode : tree.lookup? (place ++ [name]) with
    | none => exact follow_fail ..
    | some node =>
        dsimp only
        by_cases hrefused : node.isDirectory ∧ ¬recursive
        · rw [if_pos hrefused, if_pos hrefused]
          exact follow_fail ..
        · rw [if_neg hrefused, if_neg hrefused]
          obtain ⟨entries, hentries, -⟩ := entriesAt?_of_lookup? hnode
          obtain ⟨after, hafter⟩ := Node.exists_eraseAt (Option.isSome_of_eq_some hnode)
          refine ⟨.changed after, by rw [hafter]; rfl, ?_⟩
          simp [cloneAt_eq hentries, remove_eq hafter, Outcome.report, Outcome.tree,
            Outcome.error?]

theorem target_eq (source destination : List String) :
    target tree source destination = .ok (Files.target tree source destination) := by
  unfold target Files.target
  rw [walk_eq, ok_bind]
  cases tree.lookup? destination with
  | none => cases lastOf? source <;> rfl
  | some node =>
      rcases List.eq_nil_or_concat' source with rfl | ⟨place, name, rfl⟩
      · cases node <;> rfl
      · cases node <;> simp [lastOf?_snoc, Node.isDirectory]

theorem cp_follows (source destination : String) :
    Follow tree (Files.cp tree cwd source destination) (cp tree cwd source destination) := by
  simp only [Files.cp, cp, resolve_eq, walk_eq, target_eq, ok_bind]
  cases tree.lookup? (Path.resolve cwd source) with
  | none => exact follow_fail ..
  | some node =>
      dsimp only
      generalize Path.resolve cwd source = src
      generalize Files.target tree src (Path.resolve cwd destination) = dst
      by_cases hsame : dst = src
      · rw [if_pos hsame, if_pos hsame]
        exact follow_fail ..
      · rw [if_neg hsame, if_neg hsame]
        by_cases hinside : src.isPrefixOf dst
        · rw [if_pos hinside, if_pos (.inr hinside)]
          exact follow_fail ..
        · have hroot : ¬(src = [] ∨ src.isPrefixOf dst = true) := by
            rintro (rfl | hprefix)
            · exact hinside rfl
            · exact hinside hprefix
          rw [if_neg hinside, if_neg hroot]
          rcases List.eq_nil_or_concat' dst with rfl | ⟨place, name, rfl⟩
          · exact follow_fail ..
          · rw [lastOf?_snoc, if_neg (List.append_ne_nil_of_right_ne_nil _ (by simp))]
            refine follow_parent (follow_fail ..) fun parent entries hthere hentries => ?_
            rw [hthere, lastName_snoc, need_some, ok_bind, ok_bind]
            cases Files.holdsDirectory entries name with
            | true => exact follow_fail ..
            | false => exact follow_put hentries name _

/-- Taking a node away and storing it elsewhere: the directory that it goes to is not inside it, so
the copy still has that directory once the node has been taken away. -/
theorem follow_move {home place : List String} {key name : String} {node : Node}
    {entries : Table Node} (hnode : tree.lookup? (home ++ [key]) = some node)
    (hentries : tree.entriesAt? place = some entries) (houtside : ¬ home ++ [key] <+: place) :
    Follow tree
      (do
        let without ← tree.eraseAt home key
        return .changed (← without.insertAt place name (node.rename name)))
      (do
        let home' ← need .noNode (tree.lookup? home)
        let moved ← need (.noEntry key) (Table.get? key (← need .noEntries home'.entries?))
        let without ← remove home key tree
        return { tree := ← store place name (moved.rename name) without }) := by
  obtain ⟨entries', hentries', hmoved⟩ := entriesAt?_of_lookup? hnode
  obtain ⟨parent, hparent, hthere⟩ := Option.bind_eq_some_iff.mp hentries'
  obtain ⟨without, hwithout⟩ := Node.exists_eraseAt (Option.isSome_of_eq_some hnode)
  have hplace := Node.isSome_entriesAt?_of_erase (Node.alter?_of_alter hwithout) houtside
    (Option.isSome_of_eq_some hentries)
  obtain ⟨after, hafter⟩ := Node.exists_insertAt hplace name (node.rename name)
  refine ⟨.changed after, ?_, ?_⟩
  · rw [hwithout]
    change (do return Outcome.changed (← without.insertAt place name (node.rename name)) :
      Command) = _
    rw [hafter]
    rfl
  · simp [hparent, hthere, hmoved, remove_eq hwithout, store_eq hafter, Outcome.report,
      Outcome.tree, Outcome.error?]

theorem mv_follows (source destination : String) :
    Follow tree (Files.mv tree cwd source destination) (mv tree cwd source destination) := by
  simp only [Files.mv, mv, resolve_eq, walk_eq, target_eq, ok_bind]
  cases hnode : tree.lookup? (Path.resolve cwd source) with
  | none => exact follow_fail ..
  | some node =>
      dsimp only
      revert hnode
      generalize Path.resolve cwd source = src
      generalize Files.target tree src (Path.resolve cwd destination) = dst
      intro hnode
      by_cases hsame : dst = src
      · rw [if_pos hsame, if_pos hsame]
        exact follow_unchanged
      · rw [if_neg hsame, if_neg hsame]
        rcases List.eq_nil_or_concat' src with rfl | ⟨home, key, rfl⟩
        · exact follow_fail ..
        · rw [lastOf?_snoc]
          dsimp only
          by_cases hinside : (home ++ [key]).isPrefixOf dst
          · rw [if_pos hinside, if_pos (.inr hinside)]
            exact follow_fail ..
          · rw [if_neg hinside, if_neg (by simpa using hinside)]
            rcases List.eq_nil_or_concat' dst with rfl | ⟨place, name, rfl⟩
            · exact follow_fail ..
            · rw [lastOf?_snoc, if_neg (List.append_ne_nil_of_right_ne_nil _ (by simp))]
              refine follow_parent (follow_fail ..) fun parent entries hthere hentries => ?_
              rw [hthere, lastName_snoc, need_some, ok_bind, ok_bind]
              cases Files.holdsDirectory entries name with
              | true => exact follow_fail ..
              | false =>
                  rw [if_neg Bool.false_ne_true, if_neg Bool.false_ne_true, lastName_snoc, ok_bind,
                    List.dropLast_concat, List.dropLast_concat]
                  refine follow_move hnode hentries fun hbelow => hinside ?_
                  exact List.isPrefixOf_iff_prefix.mpr
                    (hbelow.trans (List.prefix_append place [name]))

theorem cat_eq (path : String) : cat tree cwd path = .ok (Files.cat tree cwd path) := by
  simp only [cat, Files.cat, resolve_eq, walk_eq, ok_bind]
  cases tree.lookup? (Path.resolve cwd path) with
  | none => rfl
  | some node => cases node <;> rfl

theorem compileFile_follows (source output : String) :
    Follow tree (ToyC.compileFile tree cwd source output) (compileFile tree cwd source output) := by
  simp only [ToyC.compileFile, compileFile, cat_eq, ok_bind]
  cases Files.cat tree cwd source with
  | error e => exact ⟨_, rfl, rfl⟩
  | ok text => exact install_follows output _ "gcc"

theorem given_eq (otherwise : List String) (path : Option String) :
    given cwd otherwise path =
      .ok (((Files.given? path).map (Path.resolve cwd)).getD otherwise) := by
  unfold given
  cases Files.given? path with
  | none => rfl
  | some path => exact resolve_eq cwd path

theorem ls_eq (path : Option String) : ls tree cwd path = .ok (Files.ls tree cwd path) := by
  simp only [ls, Files.ls, given_eq, walk_eq, ok_bind]
  cases tree.lookup? (((Files.given? path).map (Path.resolve cwd)).getD cwd) with
  | none => rfl
  | some node => cases node <;> rfl

theorem changeDirectory_eq (path : Option String) :
    changeDirectory tree cwd path = .ok (Files.changeDirectory tree cwd path) := by
  simp only [changeDirectory, Files.changeDirectory, given_eq, walk_eq, ok_bind]
  cases tree.lookup? (((Files.given? path).map (Path.resolve cwd)).getD Path.home) with
  | none => rfl
  | some node => cases node <;> rfl

theorem searchPlace_eq (lead : List Char) :
    searchPlace cwd lead = .ok (Files.searchPlace cwd lead) := by
  match lead with
  | [] => rfl
  | [char] =>
    by_cases hslash : char = '/'
    · subst hslash
      rfl
    · simp [searchPlace, Files.searchPlace, hslash, resolve_eq]
  | _ :: _ :: _ => simp [searchPlace, Files.searchPlace, resolve_eq]

theorem complete_eq (word : String) :
    complete tree cwd word = .ok (Files.complete tree cwd word) := by
  simp only [complete, Files.complete, searchPlace_eq, walk_eq, ok_bind, Node.entriesAt?]
  cases tree.lookup? (Files.searchPlace cwd (Files.splitWord word.toList).1) with
  | none => rfl
  | some node => cases node <;> rfl

end Steps

/-! ### Requests -/

/-- Everything that can be asked of a file tree. -/
inductive Request where
  | perform (op : Operation)
  | cat (path : String)
  | ls (path : Option String)
  | complete (word : String)

/-- What is handed back. -/
inductive Reply where
  | report (report : Report)
  | text (result : Except FileError String)
  | names (result : Except FileError (List String))
  | words (candidates : List String)

namespace Request

/-- The reply to a request. -/
def reply (tree : Node) (cwd : List String) : Request → Except Breakage Reply
  | .perform (.mkdir path) => report (Files.mkdir tree cwd path)
  | .perform (.touch path) => report (Files.touch tree cwd path)
  | .perform (.rm path recursive) => report (Files.rm tree cwd path recursive)
  | .perform (.cp source destination) => report (Files.cp tree cwd source destination)
  | .perform (.mv source destination) => report (Files.mv tree cwd source destination)
  | .perform (.writeFile path content) => report (Files.writeFile tree cwd path content)
  | .perform (.install path node command) => report (Files.install tree cwd path node command)
  | .perform (.compileFile source output) => report (compileFile tree cwd source output)
  | .perform (.changeDirectory path) => .ok (.names (Files.changeDirectory tree cwd path))
  | .cat path => .ok (.text (Files.cat tree cwd path))
  | .ls path => .ok (.names (Files.ls tree cwd path))
  | .complete word => .ok (.words (Files.complete tree cwd word))
where
  report (command : Command) : Except Breakage Reply :=
    command.map fun outcome => .report (outcome.report tree)

/-- The reply to a request, step by step. -/
def steps (tree : Node) (cwd : List String) : Request → Steps Reply
  | .perform (.mkdir path) => .report <$> Steps.mkdir tree cwd path
  | .perform (.touch path) => .report <$> Steps.touch tree cwd path
  | .perform (.rm path recursive) => .report <$> Steps.rm tree cwd path recursive
  | .perform (.cp source destination) => .report <$> Steps.cp tree cwd source destination
  | .perform (.mv source destination) => .report <$> Steps.mv tree cwd source destination
  | .perform (.writeFile path content) =>
    .report <$> Steps.install tree cwd path (.file path content none) "write"
  | .perform (.install path node command) =>
    .report <$> Steps.install tree cwd path node command
  | .perform (.compileFile source output) =>
    .report <$> Steps.compileFile tree cwd source output
  | .perform (.changeDirectory path) => .names <$> Steps.changeDirectory tree cwd path
  | .cat path => .text <$> Steps.cat tree cwd path
  | .ls path => .names <$> Steps.ls tree cwd path
  | .complete word => .words <$> Steps.complete tree cwd word

theorem answered_of_follow {tree : Node} {command : Command} {steps : Steps Report}
    (h : Steps.Follow tree command steps) :
    ∃ answer, reply.report tree command = .ok answer ∧ .report <$> steps = .ok answer ∧
      ∀ report, answer = .report report → report.error?.isSome → report.tree = tree := by
  obtain ⟨outcome, hcommand, hsteps⟩ := h
  refine ⟨.report (outcome.report tree), by rw [hcommand]; rfl, by rw [hsteps]; rfl, ?_⟩
  intro report hreport herror
  cases hreport
  exact Outcome.report_tree_of_error herror

/-- On any tree, from any working directory and with any path, a request is answered: no step is in
the way, the answer is the one of the command as it is run, and a command that reports an error
hands back the tree that it was given. -/
theorem answered (tree : Node) (cwd : List String) (r : Request) :
    ∃ answer, r.reply tree cwd = .ok answer ∧ r.steps tree cwd = .ok answer ∧
      ∀ report, answer = .report report → report.error?.isSome → report.tree = tree := by
  cases r with
  | perform op =>
      cases op with
      | mkdir path => exact answered_of_follow (Steps.mkdir_follows path)
      | touch path => exact answered_of_follow (Steps.touch_follows path)
      | rm path recursive => exact answered_of_follow (Steps.rm_follows path recursive)
      | cp source destination => exact answered_of_follow (Steps.cp_follows source destination)
      | mv source destination => exact answered_of_follow (Steps.mv_follows source destination)
      | writeFile path content =>
          exact answered_of_follow (Steps.install_follows path (.file path content none) "write")
      | install path node command =>
          exact answered_of_follow (Steps.install_follows path node command)
      | compileFile source output =>
          exact answered_of_follow (Steps.compileFile_follows source output)
      | changeDirectory path =>
          exact ⟨_, rfl, by rw [steps, Steps.changeDirectory_eq]; rfl, by rintro _ ⟨⟩⟩
  | cat path => exact ⟨_, rfl, by rw [steps, Steps.cat_eq]; rfl, by rintro _ ⟨⟩⟩
  | ls path => exact ⟨_, rfl, by rw [steps, Steps.ls_eq]; rfl, by rintro _ ⟨⟩⟩
  | complete word => exact ⟨_, rfl, by rw [steps, Steps.complete_eq]; rfl, by rintro _ ⟨⟩⟩

end Request

end ToyC
