import ToyC.Proofs.Files.Commute
import ToyC.Proofs.Text

/-!
Ways to a place. A path is read part by part, so a path behind another goes on from
where the first one ends, and a place that is written as an absolute path is found
again from anywhere. How a place is typed does not matter to a command with a single
path: it does the same to the tree, and if it fails, only the operand of its error is
another.
-/

namespace ToyC

/-! ### Parts of a path -/

namespace Path

/-- The parts of two paths with a slash between them. -/
theorem parts_join (first second : String) :
    parts (first ++ "/" ++ second) = parts first ++ parts second := by
  have htext : (first ++ "/" ++ second).toList = first.toList ++ '/' :: second.toList := by
    simp
  simp only [parts, Text.splitOn_eq, htext, List.splitOn_append_cons_self, List.map_append]

theorem parts_of_no_slash {name : String} (h : '/' ∉ name.toList) : parts name = [name] := by
  rw [parts, Text.splitOn_eq, List.splitOn_eq_singleton h]
  simp

/-- Names that are put together with slashes are the parts of the path. Without a name there is one
empty part. -/
theorem parts_intercalate {names : List String} (h : ∀ name ∈ names, '/' ∉ name.toList) :
    parts (String.intercalate "/" names) = if names = [] then [""] else names := by
  split
  · rename_i hroot
    rw [hroot]
    rfl
  · rename_i hbelow
    have hslashes : ∀ piece ∈ names.map String.toList, '/' ∉ piece := by simpa using h
    have hpieces := List.splitOn_intercalate '/' hslashes (by simpa using hbelow)
    have htext : (String.intercalate "/" names).toList =
        List.intercalate ['/'] (names.map String.toList) := String.toList_intercalate
    rw [parts, Text.splitOn_eq, htext, hpieces, List.map_map]
    simp [Function.comp_def]

/-- An absolute path begins with an empty part, the one in front of its first slash. -/
theorem parts_format {segments : List String} (h : ∀ name ∈ segments, '/' ∉ name.toList) :
    parts (format segments) = "" :: if segments = [] then [""] else segments := by
  have hfront : format segments = "" ++ "/" ++ String.intercalate "/" segments := by
    simp [format]
  rw [hfront, parts_join, parts_intercalate h]
  rfl

/-! ### Following a path -/

theorem Canonical.toList_ne_nil {name : String} (h : Canonical name) : name.toList ≠ [] := by
  simpa using h.1

theorem Canonical.head?_ne {name : String} (h : Canonical name) : name.toList.head? ≠ some '/' :=
  fun hhead => h.2.1 (List.mem_of_mem_head? hhead)

theorem follow_canonical {name : String} (h : Canonical name) (place : List String) :
    follow place name = place ++ [name] := by
  obtain ⟨hempty, -, hdot, hup, htilde⟩ := h
  simp [follow, hempty, hdot, hup, htilde]

theorem foldl_follow_canonical {names : List String} (h : ∀ name ∈ names, Canonical name)
    (place : List String) : names.foldl follow place = place ++ names := by
  induction names generalizing place with
  | nil => simp
  | cons name rest ih =>
      obtain ⟨hname, hrest⟩ := List.forall_mem_cons.mp h
      rw [List.foldl_cons, follow_canonical hname, ih hrest, List.append_assoc]
      rfl

/-- A canonical name leads to the entry of that name. -/
theorem resolve_canonical {name : String} (h : Canonical name) (cwd : List String) :
    resolve cwd name = cwd ++ [name] := by
  simp only [resolve, if_neg h.head?_ne, parts_of_no_slash h.2.1, List.foldl_cons, List.foldl_nil]
  exact follow_canonical h cwd

/-- An absolute path of canonical names leads to the place that it is written from. -/
theorem resolve_format {segments : List String} (h : ∀ name ∈ segments, Canonical name)
    (cwd : List String) : resolve cwd (format segments) = segments := by
  have hstart : (format segments).toList.head? = some '/' := by simp [format]
  have hparts := parts_format fun name hname => (h name hname).2.1
  simp only [resolve, if_pos hstart, hparts, List.foldl_cons]
  split
  · -- behind the slash of the root there is one more empty part, which leads nowhere
    rename_i hroot
    rw [hroot]
    rfl
  · exact (foldl_follow_canonical h _).trans (List.nil_append segments)

/-- A path behind a slash goes on from the place that the path in front of it leads to. -/
theorem resolve_join {first second : String} (hfirst : first ≠ "")
    (hsecond : second.toList.head? ≠ some '/') (cwd : List String) :
    resolve cwd (first ++ "/" ++ second) = resolve (resolve cwd first) second := by
  obtain ⟨c, rest, hchars⟩ := List.exists_cons_of_ne_nil
    (fun hnil : first.toList = [] => hfirst (String.toList_eq_nil_iff.mp hnil))
  have hstart : (first ++ "/" ++ second).toList.head? = first.toList.head? := by
    simp [hchars]
  simp only [resolve, hstart, if_neg hsecond, parts_join, List.foldl_append]

/-- A path behind a slash at the front starts at the root. -/
theorem resolve_root_join (second : String) (cwd : List String) :
    resolve cwd ("/" ++ second) = resolve [] second := by
  have hparts : parts ("/" ++ second) = "" :: parts second := parts_join "" second
  have hstart : ("/" ++ second).toList.head? = some '/' := by simp
  simp only [resolve, if_pos hstart, hparts, List.foldl_cons, ite_self]
  rfl

/-- A slash at the end of a path makes no difference. -/
theorem resolve_slash {path : String} (h : path ≠ "") (cwd : List String) :
    resolve cwd (path ++ "/") = resolve cwd path := by
  have hjoin := resolve_join h (show "".toList.head? ≠ some '/' by simp) cwd
  rw [String.append_empty] at hjoin
  rw [hjoin]
  rfl

end Path

/-! ### Commands with one path -/

/-- The error with the operand typed in another way. -/
def FileError.retype (operand : String) (error : FileError) : FileError :=
  { error with operand }

/-- The result of a command with one path, had the path been typed in another way. -/
def Command.retype (operand : String) : Command → Command
  | .ok (.failed error) => .ok (.failed (error.retype operand))
  | command => command

/-- What a change of the tree comes to has no operand. -/
theorem Command.retype_changed (operand : String) (result : Except Breakage Node) :
    Command.retype operand (do return .changed (← result)) = do return .changed (← result) := by
  cases result <;> rfl

namespace Effect

/-- The effect with its error for another operand. -/
def retype (operand : String) : Effect → Effect
  | .refuses error => .refuses (error.retype operand)
  | effect => effect

theorem act_retype (operand : String) (effect : Effect) (tree : Node) (place : List String)
    (name : String) :
    (effect.retype operand).act tree place name = (effect.act tree place name).retype operand := by
  cases effect with
  | refuses error => rfl
  | nothing => rfl
  | stores node => exact (Command.retype_changed operand _).symm
  | erases => exact (Command.retype_changed operand _).symm

end Effect

namespace Edit

/-- The edit with its path typed in another way. -/
def retype (path : String) : Edit → Edit
  | .mkdir _ => .mkdir path
  | .touch _ => .touch path
  | .writeFile _ content => .writeFile path content
  | .install _ node command => .install path node command
  | .rm _ recursive => .rm path recursive

variable {tree : Node} {cwd other : List String} {typed : String} {e : Edit}

@[simp] theorem path_retype (typed : String) (e : Edit) : (e.retype typed).path = typed := by
  cases e <;> rfl

theorem refusal_retype (reason : FileError.Reason) (typed : String) (e : Edit) :
    (e.retype typed).refusal reason = (e.refusal reason).retype typed := by
  cases e <;> rfl

theorem replace_retype (typed : String) (e : Edit) (node : Node) (parent : Bool)
    (there : Option Node) :
    (e.retype typed).replace node parent there = (e.replace node parent there).retype typed := by
  unfold replace
  rw [refusal_retype, refusal_retype]
  split
  · rfl
  · split <;> rfl

/-- What an edit comes to do does not depend on how its path is typed. -/
theorem effect_retype (typed name : String) (parent : Bool) (there : Option Node) (e : Edit) :
    (e.retype typed).effect name parent there = (e.effect name parent there).retype typed := by
  cases e with
  | mkdir path => cases parent <;> cases there <;> rfl
  | touch path => cases parent <;> cases there <;> rfl
  | writeFile path content =>
      exact replace_retype typed (.writeFile path content) (.file name content none) parent there
  | install path node command =>
      exact replace_retype typed (.install path node command) (node.rename name) parent there
  | rm path recursive =>
      cases there with
      | none => rfl
      | some node =>
          simp only [retype, effect]
          split <;> rfl

/-- The root is no entry of a directory, so an edit of it changes nothing. -/
theorem perform_root_retype (h : Path.resolve cwd e.path = [])
    (htyped : Path.resolve other typed = []) :
    (e.retype typed).perform tree other = (e.perform tree cwd).retype typed := by
  cases e with
  | mkdir path =>
      change Path.resolve cwd path = [] at h
      simp only [retype, perform, Files.mkdir, h, htyped]
      rfl
  | touch path =>
      change Path.resolve cwd path = [] at h
      simp only [retype, perform, Files.touch, h, htyped]
      rfl
  | writeFile path content =>
      change Path.resolve cwd path = [] at h
      simp only [retype, perform, Files.writeFile, Files.install, h, htyped]
      rfl
  | install path node command =>
      change Path.resolve cwd path = [] at h
      simp only [retype, perform, Files.install, h, htyped]
      rfl
  | rm path recursive =>
      change Path.resolve cwd path = [] at h
      simp only [retype, perform, Files.rm, h, htyped]
      rfl

/-- An edit depends on the place that its path leads to, and not on how the path is typed or where
it starts. -/
theorem perform_retype (h : Path.resolve other typed = Path.resolve cwd e.path) :
    (e.retype typed).perform tree other = (e.perform tree cwd).retype typed := by
  rcases List.eq_nil_or_concat' (Path.resolve cwd e.path) with hroot | ⟨place, name, hpath⟩
  · exact perform_root_retype hroot (h.trans hroot)
  · have htyped : Path.resolve other (e.retype typed).path = place ++ [name] := by
      rw [path_retype, h, hpath]
    rw [perform_eq hpath, perform_eq htyped, effect_retype, Effect.act_retype]

end Edit

/-- The text of a file depends on the place alone, too. -/
theorem Files.cat_retype {tree : Node} {cwd other : List String} {path typed : String}
    (h : Path.resolve other typed = Path.resolve cwd path) :
    cat tree other typed = (cat tree cwd path).mapError (·.retype typed) := by
  rw [cat, cat, h]
  cases tree.lookup? (Path.resolve cwd path) with
  | none => rfl
  | some node => cases node <;> rfl

theorem Files.given?_some {path : String} (h : path ≠ "") : given? (some path) = some path := by
  simp [given?, Option.filter, h]

/-- A directory that has been changed to is the place that its path leads to. -/
theorem Files.changeDirectory_done {tree : Node} {cwd place : List String} {path : String}
    (hpath : path ≠ "") (h : changeDirectory tree cwd (some path) = .ok place) :
    place = Path.resolve cwd path := by
  simp only [changeDirectory, given?_some hpath, Option.map_some, Option.getD_some] at h
  split at h
  · cases h
  · split at h
    · cases h
      rfl
    · cases h

/-! ### Absolute paths and changes of the working directory -/

namespace Path

/-- What a path leads to is canonical, and every canonical place is found again by its absolute
path. So a path can be replaced by the absolute path of its place, typed in any directory. -/
theorem resolve_absolute {cwd : List String} (hcwd : ∀ name ∈ cwd, Canonical name)
    (path : String) :
    (∀ name ∈ resolve cwd path, Canonical name) ∧
      (∀ segments : List String, (∀ name ∈ segments, Canonical name) →
        ∀ other, resolve other (format segments) = segments) ∧
      ∀ (tree : Node) (other : List String),
        let absolute := format (resolve cwd path)
        Files.cat tree other absolute =
            (Files.cat tree cwd path).mapError (·.retype absolute) ∧
          ∀ e : Edit, e.path = path →
            (e.retype absolute).perform tree other = (e.perform tree cwd).retype absolute := by
  have hnames := canonical_resolve hcwd path
  refine ⟨hnames, fun segments hsegments other => resolve_format hsegments other, ?_⟩
  intro tree other absolute
  have hsame : resolve other absolute = resolve cwd path := resolve_format hnames other
  refine ⟨Files.cat_retype hsame, ?_⟩
  rintro e rfl
  exact Edit.perform_retype hsame

/-- A path goes above the root, and home in its middle. The directory that it leads to is refused to
be made again, for its absolute path as for itself. -/
theorem resolve_absolute_detour :
    let path := "../../../../etc/~/./projects//..//"
    let absolute := format (resolve ["var", "log"] path)
    absolute = "/home/guest" ∧
      (Edit.mkdir absolute).perform Files.defaultTree ["bin"] =
        ((Edit.mkdir path).perform Files.defaultTree ["var", "log"]).retype absolute ∧
      ((Edit.mkdir path).perform Files.defaultTree ["var", "log"]).succeeds = false ∧
      resolve ["no", "such", "..", "place"] (format ["etc", "hosts"]) = ["etc", "hosts"] := by
  intro path absolute
  have hcwd : ∀ name ∈ ["var", "log"], Canonical name := by decide
  have hetc : ∀ name ∈ ["etc", "hosts"], Canonical name := by decide
  obtain ⟨-, hformat, hcommands⟩ := resolve_absolute hcwd path
  have habsolute : absolute = "/home/guest" := by decide +kernel
  exact ⟨habsolute, (hcommands Files.defaultTree ["bin"]).2 (.mkdir path) rfl, by decide +kernel,
    hformat ["etc", "hosts"] hetc ["no", "such", "..", "place"]⟩

/-- A path behind another leads to where it leads from the place of the other. So once the working
directory has been changed, a command does with a path what it did before with the two paths
put together. -/
theorem resolve_descend {first second : String} (hfirst : first ≠ "")
    (hsecond : second.toList.head? ≠ some '/') (cwd : List String) :
    resolve cwd (first ++ "/" ++ second) = resolve (resolve cwd first) second ∧
      ∀ (tree : Node) (place : List String),
        Files.changeDirectory tree cwd (some first) = .ok place →
        ∀ now : Node,
          let longer := first ++ "/" ++ second
          Files.cat now cwd longer = (Files.cat now place second).mapError (·.retype longer) ∧
            ∀ e : Edit, e.path = second →
              (e.retype longer).perform now cwd = (e.perform now place).retype longer := by
  have hjoin := resolve_join hfirst hsecond cwd
  refine ⟨hjoin, ?_⟩
  intro tree place hchanged now longer
  have hsame : resolve cwd longer = resolve place second := by
    rw [hjoin, Files.changeDirectory_done hfirst hchanged]
  refine ⟨Files.cat_retype hsame, ?_⟩
  rintro e rfl
  exact Edit.perform_retype hsame

/-- From a directory that is gone the working directory is changed to home, by a path that ends
with a slash already. A file is read and removed there by a path through a directory beside it. -/
theorem resolve_descend_home :
    let longer := "/bin/..//home/./guest/" ++ "/" ++ "projects/../todo.list"
    resolve ["gone"] longer = ["home", "guest", "todo.list"] ∧
      Files.cat Files.defaultTree ["gone"] longer =
        .ok "- Buy milk\n- Hack the mainframe\n- Sleep" ∧
      ((Edit.rm "projects/../todo.list" false).retype longer).perform Files.defaultTree ["gone"] =
        ((Edit.rm "projects/../todo.list" false).perform Files.defaultTree
          ["home", "guest"]).retype longer := by
  intro longer
  have hchanged : Files.changeDirectory Files.defaultTree ["gone"]
      (some "/bin/..//home/./guest/") = .ok ["home", "guest"] := by
    rfl
  have hfirst : "/bin/..//home/./guest/" ≠ "" := by decide
  have hsecond : "projects/../todo.list".toList.head? ≠ some '/' := by decide
  obtain ⟨hjoin, hcommands⟩ := resolve_descend hfirst hsecond ["gone"]
  obtain ⟨hcat, hedit⟩ := hcommands Files.defaultTree _ hchanged Files.defaultTree
  refine ⟨hjoin.trans (by decide +kernel), hcat.trans rfl, hedit _ rfl⟩

end Path

end ToyC
