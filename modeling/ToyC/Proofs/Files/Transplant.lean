import ToyC.Proofs.Files.Carrying
import ToyC.Proofs.Files.Commute

/-!
Copies and moves of whole subtrees. What arrives at the target is what was at the
source with everything below it, and only its name is that of the target. Neither
of the two places is at or below the other. So a copy leaves its source alone, a
move leaves nothing there, and everything elsewhere stays as it was. No later edit
at one of the two places reaches the other.
-/

namespace ToyC

namespace Node

variable {tree now after node : Node} {source target place : List String} {name : String}

/-- What was at and below one place is at and below another; the node that was at the place has the
last name of the other. -/
structure Arrives (source target : List String) (before after : Node) : Prop where
  top : ∃ name node, target.getLast? = some name ∧ before.lookup? source = some node ∧
    after.lookup? target = some (node.rename name)
  below (segment : String) (rest : List String) :
    after.lookup? (target ++ segment :: rest) = before.lookup? (source ++ segment :: rest)

theorem lookup?_rename_cons (name segment : String) (rest : List String) (node : Node) :
    (node.rename name).lookup? (segment :: rest) = node.lookup? (segment :: rest) := by
  cases node <;> rfl

/-- A node that was found at one place is stored at another. -/
theorem arrives_of_insertAt (hnode : tree.lookup? source = some node)
    (hstored : now.insertAt place name (node.rename name) = .ok after) :
    Arrives source (place ++ [name]) tree after := by
  obtain ⟨-, -, harrived⟩ := insertAt_done hstored
  refine ⟨⟨name, node, by simp, hnode, lookup?_of_insertAt hstored⟩, fun segment rest => ?_⟩
  rw [harrived, lookup?_rename_cons, lookup?_append, hnode, Option.bind_some]

/-- A target that is not below the source and holds no directory is not above the source either. -/
theorem apart_of_no_directory (hsource : (tree.lookup? source).isSome)
    (houtside : ¬ source <+: target)
    (hfile : ∀ there, tree.lookup? target = some there → there.isDirectory = false) :
    Path.Apart source target := by
  refine ⟨houtside, fun habove => ?_⟩
  obtain ⟨there, hthere⟩ :=
    Option.isSome_iff_exists.mp (isSome_lookup?_of_isPrefix habove hsource)
  cases there with
  | directory => cases hfile _ hthere
  | file name content attributes =>
      have hholds : HoldsFile content attributes tree target := ⟨name, hthere⟩
      obtain rfl := hholds.eq_of_isPrefix habove hsource
      exact houtside List.prefix_rfl

/-- A change at or below one place is not seen at or below a place that is apart from it. -/
theorem DiffersAt.lookup?_apart (h : DiffersAt target tree after)
    (hapart : Path.Apart source target) (rest : List String) :
    after.lookup? (source ++ rest) = tree.lookup? (source ++ rest) :=
  h.nodes _ (hapart.below rest).2 (hapart.below rest).1

end Node

/-! ### Later edits -/

/-- What an edit does to a tree is seen at its target alone, whether it succeeds or not. -/
theorem Effect.act_differs (effect : Effect) (tree : Node) (place : List String) (name : String) :
    Node.DiffersAt (place ++ [name]) tree ((effect.act tree place name).after tree) := by
  cases effect with
  | refuses error => exact .refl _ tree
  | nothing => exact .refl _ tree
  | stores node =>
      rw [act]
      cases hstored : tree.insertAt place name node with
      | error breakage => exact .refl _ tree
      | ok after => exact (Node.insertAt_done hstored).1
  | erases =>
      rw [act]
      cases herased : tree.eraseAt place name with
      | error breakage => exact .refl _ tree
      | ok after => exact (Node.eraseAt_done herased).1

namespace Edit

variable {tree : Node} {s d : List String}

/-- The tree after a run of edits, each typed in a directory of its own. -/
def performAll (tree : Node) (steps : List (List String × Edit)) : Node :=
  steps.foldl (fun tree step => (step.2.perform tree step.1).after tree) tree

/-- An edit at or below one of two places that are apart leaves the other as it is. -/
theorem perform_apart {cwd : List String} {e : Edit} (hapart : Path.Apart s d)
    (hbelow : s <+: Path.resolve cwd e.path) (rest : List String) :
    ((e.perform tree cwd).after tree).lookup? (d ++ rest) = tree.lookup? (d ++ rest) := by
  obtain ⟨more, hmore⟩ := hbelow
  have htarget := hapart.below more
  obtain ⟨place, name, hpath⟩ := htarget.exists_snoc
  rw [hmore] at hpath
  rw [hmore, hpath] at htarget
  rw [perform_eq hpath]
  exact (Effect.act_differs _ tree place name).lookup?_apart htarget.symm rest

/-- A run of such edits does, too. -/
theorem performAll_apart (hapart : Path.Apart s d) {steps : List (List String × Edit)}
    (hbelow : ∀ step ∈ steps, s <+: Path.resolve step.1 step.2.path) (rest : List String) :
    (performAll tree steps).lookup? (d ++ rest) = tree.lookup? (d ++ rest) := by
  induction steps generalizing tree with
  | nil => rfl
  | cons step steps ih =>
      rw [List.forall_mem_cons] at hbelow
      exact (ih hbelow.2).trans (perform_apart hapart hbelow.1 rest)

end Edit

/-! ### Copies -/

namespace Files

variable {tree : Node} {cwd : List String} {source destination : String}

/-- A copy that succeeds: the source and the target are apart, the subtree of the source is at the
target too, and nothing else has changed. Whatever happens later, a run of edits at or below one
of the two places leaves the other as it was before the run. -/
theorem cp_duplicates (hsucceeds : (cp tree cwd source destination).succeeds = true) :
    let s := Path.resolve cwd source
    let d := target tree s (Path.resolve cwd destination)
    let after := (cp tree cwd source destination).after tree
    Path.Apart s d ∧ Node.Arrives s d tree after ∧
      (∀ rest, after.lookup? (s ++ rest) = tree.lookup? (s ++ rest)) ∧
      (∀ q, ¬ d <+: q → (after.lookup? q).map Node.label = (tree.lookup? q).map Node.label) ∧
      ∀ (now : Node) (steps : List (List String × Edit)),
        ((∀ step ∈ steps, s <+: Path.resolve step.1 step.2.path) →
          ∀ rest, (Edit.performAll now steps).lookup? (d ++ rest) = now.lookup? (d ++ rest)) ∧
        ((∀ step ∈ steps, d <+: Path.resolve step.1 step.2.path) →
          ∀ rest, (Edit.performAll now steps).lookup? (s ++ rest) = now.lookup? (s ++ rest)) := by
  intro s d after
  obtain ⟨outcome, hdone, hsuccess⟩ := Command.exists_of_succeeds hsucceeds
  obtain ⟨node, place, name, tree', rfl, hnode, hgoal, houtside, hfile, hstored⟩ :=
    cp_done hdone hsuccess
  have hafter : after = tree' := congrArg (Command.after tree) hdone
  have hd : d = place ++ [name] := hgoal
  have hdiffers := (Node.insertAt_done hstored).1
  rw [← hd, ← hafter] at hdiffers
  rw [← hd] at houtside hfile
  have hapart : Path.Apart s d :=
    Node.apart_of_no_directory (Option.isSome_of_eq_some hnode) houtside hfile
  refine ⟨hapart, ?_, hdiffers.lookup?_apart hapart, hdiffers.labels, fun now steps => ⟨?_, ?_⟩⟩
  · rw [hd, hafter]
    exact Node.arrives_of_insertAt hnode hstored
  · exact fun hbelow => Edit.performAll_apart hapart hbelow
  · exact fun hbelow => Edit.performAll_apart hapart.symm hbelow

/-- A directory is copied over a file. Its original is then removed and a file put in its place, and
the copy still has all that was below it. -/
theorem cp_duplicates_replaced :
    let after := (cp defaultTree ["etc"] "../var" "./hosts").after defaultTree
    let steps : List (List String × Edit) :=
      [(["var"], .rm "log" true), ([], .rm "var" true), (["bin"], .writeFile "/var" "gone")]
    let later := Edit.performAll after steps
    (cp defaultTree ["etc"] "../var" "./hosts").succeeds = true ∧
      Path.Apart ["var"] ["etc", "hosts"] ∧
      Node.Arrives ["var"] ["etc", "hosts"] defaultTree after ∧
      (later.lookup? ["etc", "hosts", "log", "syslog"]).map Node.label =
        some ("syslog", some "System booted successfully.", none) := by
  intro after steps later
  have hsucceeds : (cp defaultTree ["etc"] "../var" "./hosts").succeeds = true := by
    decide +kernel
  have hsource : Path.resolve ["etc"] "../var" = ["var"] := by decide +kernel
  have hgoal : target defaultTree ["var"] (Path.resolve ["etc"] "./hosts") = ["etc", "hosts"] := by
    decide +kernel
  obtain ⟨hapart, harrives, -, -, hlater⟩ := cp_duplicates hsucceeds
  rw [hsource, hgoal] at hapart harrives hlater
  refine ⟨hsucceeds, hapart, harrives, ?_⟩
  have hbelow : ∀ step ∈ steps, ["var"] <+: Path.resolve step.1 step.2.path := by decide +kernel
  have hkept := (hlater after steps).1 hbelow ["log", "syslog"]
  have hthere := harrives.below "log" ["syslog"]
  have hlabel := congrArg (Option.map Node.label) (hkept.trans hthere)
  exact hlabel.trans (by decide +kernel)

/-! ### Moves -/

/-- A move that succeeds: unless the target is the source itself, the two are apart, the subtree of
the source is at the target, nothing is left at the source, and nothing else has changed. -/
theorem mv_transplants (htree : tree.Distinct)
    (hsucceeds : (mv tree cwd source destination).succeeds = true) :
    let s := Path.resolve cwd source
    let d := target tree s (Path.resolve cwd destination)
    let after := (mv tree cwd source destination).after tree
    (d = s → after = tree) ∧
      (d ≠ s → Path.Apart s d ∧ Node.Arrives s d tree after ∧
        (∀ rest, after.lookup? (s ++ rest) = none) ∧
        ∀ q, ¬ s <+: q → ¬ d <+: q →
          (after.lookup? q).map Node.label = (tree.lookup? q).map Node.label) := by
  intro s d after
  obtain ⟨outcome, hdone, hsuccess⟩ := Command.exists_of_succeeds hsucceeds
  obtain ⟨node, hnode, hmoved⟩ := mv_done hdone hsuccess
  rcases hmoved with ⟨rfl, hgoal⟩ | ⟨home, key, place, name, without, tree', rfl, hsource, hgoal,
    houtside, hfile, herased, hstored⟩
  · exact ⟨fun _ => congrArg (Command.after tree) hdone, fun hne => absurd hgoal hne⟩
  · have hafter : after = tree' := congrArg (Command.after tree) hdone
    have hs : s = home ++ [key] := hsource
    have hd : d = place ++ [name] := hgoal
    have hgone := Node.lookup?_of_eraseAt htree herased
    have hwithout := (Node.eraseAt_done herased).1
    have hdiffers := (Node.insertAt_done hstored).1
    rw [← hs] at hgone hwithout
    rw [← hd, ← hafter] at hdiffers
    rw [← hs, ← hd] at houtside
    rw [← hd] at hfile
    have hapart : Path.Apart s d :=
      Node.apart_of_no_directory (Option.isSome_of_eq_some hnode) houtside hfile
    refine ⟨fun hsame => absurd (hsame ▸ List.prefix_rfl) houtside, fun _ => ⟨hapart, ?_, ?_, ?_⟩⟩
    · rw [hd, hafter]
      exact Node.arrives_of_insertAt hnode hstored
    · exact fun rest => (hdiffers.lookup?_apart hapart rest).trans (hgone rest)
    · exact fun q hsq hdq => (hdiffers.labels q hdq).trans (hwithout.labels q hsq)

/-- The working directory is moved over a file, and so away from the directory that it was in. -/
theorem mv_transplants_workingDirectory :
    let after := (mv defaultTree Path.home "." "/var/log/syslog").after defaultTree
    (mv defaultTree Path.home "." "/var/log/syslog").succeeds = true ∧
      Path.Apart ["home", "guest"] ["var", "log", "syslog"] ∧
      Node.Arrives ["home", "guest"] ["var", "log", "syslog"] defaultTree after ∧
      after.lookup? ["home", "guest", "projects"] = none ∧
      (after.lookup? ["home"]).map Node.label = some ("home", none, none) := by
  intro after
  have hsucceeds : (mv defaultTree Path.home "." "/var/log/syslog").succeeds = true := by
    decide +kernel
  have hsource : Path.resolve Path.home "." = ["home", "guest"] := by decide +kernel
  have hgoal : target defaultTree ["home", "guest"] (Path.resolve Path.home "/var/log/syslog") =
      ["var", "log", "syslog"] := by
    decide +kernel
  obtain ⟨-, hmoved⟩ := mv_transplants defaultTree_wellFormed.distinct hsucceeds
  rw [hsource, hgoal] at hmoved
  obtain ⟨hapart, harrives, hgone, hlabels⟩ := hmoved (by decide)
  refine ⟨hsucceeds, hapart, harrives, hgone ["projects"], ?_⟩
  exact (hlabels ["home"] (by decide) (by decide)).trans (by decide +kernel)

end Files

end ToyC
