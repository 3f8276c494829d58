import ToyC.Proofs.Files.Likeness

/-!
Edits at places that have no path in common. What an edit comes to do is decided by
two facts about the tree: whether a directory is where its target is to stand, and
which node is at the target. An edit elsewhere changes neither, so two such edits
may change places.
-/

namespace ToyC

/-- What an edit comes to do at its target. -/
inductive Effect where
  | refuses (error : FileError)
  | nothing
  | stores (node : Node)
  | erases

namespace Effect

/-- Whether an effect is possible, by whether the directory of the target is there and by the node
at the target. -/
def Fits (parent : Bool) (there : Option Node) : Effect → Prop
  | .refuses _ | .nothing => True
  | .stores node => parent = true ∧ node.Distinct
  | .erases => there.isSome

def error? : Effect → Option FileError
  | .refuses error => some error
  | _ => none

/-- The node that is left at the target. -/
def leaves (there : Option Node) : Effect → Option Node
  | .refuses _ | .nothing => there
  | .stores node => some node
  | .erases => none

/-- Take effect at a name in the directory at a place. -/
def act (tree : Node) (place : List String) (name : String) : Effect → Command
  | .refuses error => .ok (.failed error)
  | .nothing => .ok .unchanged
  | .stores node => do return .changed (← tree.insertAt place name node)
  | .erases => do return .changed (← tree.eraseAt place name)

end Effect

namespace Node

variable {tree : Node} {place : List String} {key : String}

theorem DiffersAt.refl (target : List String) (tree : Node) : DiffersAt target tree tree :=
  ⟨fun _ _ => rfl, fun _ _ _ => rfl⟩

/-- Where the labels are the same, a directory is in both trees or in neither. -/
theorem isSome_entriesAt?_eq {other : Node}
    (h : (other.lookup? place).map label = (tree.lookup? place).map label) :
    (other.entriesAt? place).isSome = (tree.entriesAt? place).isSome := by
  unfold entriesAt?
  cases hother : other.lookup? place with
  | none =>
      cases htree : tree.lookup? place with
      | none => rfl
      | some node => simp [hother, htree] at h
  | some node' =>
      cases htree : tree.lookup? place with
      | none => simp [hother, htree] at h
      | some node =>
          rw [hother, htree] at h
          cases node <;> cases node' <;> simp [label] at h <;> rfl

end Node

namespace Effect

/-- An effect has taken place: everything that is not at or below the target is as it was, at the
target is what the effect leaves there, and names are distinct. -/
structure Done (effect : Effect) (tree : Node) (target : List String) (outcome : Outcome) :
    Prop where
  error? : outcome.error? = effect.error?
  differs : Node.DiffersAt target tree (outcome.tree tree)
  left (rest : List String) : (outcome.tree tree).lookup? (target ++ rest) =
    (effect.leaves (tree.lookup? target)).bind (Node.lookup? rest)
  distinct : (outcome.tree tree).Distinct

/-- An effect that is possible takes place. -/
theorem act_done {tree : Node} (htree : tree.Distinct) {place : List String} {name : String}
    {effect : Effect} (h : effect.Fits (tree.entriesAt? place).isSome
      (tree.lookup? (place ++ [name]))) :
    ∃ outcome, effect.act tree place name = .ok outcome ∧
      effect.Done tree (place ++ [name]) outcome := by
  cases effect with
  | refuses error =>
      exact ⟨_, rfl, rfl, .refl _ tree, fun rest => Node.lookup?_append _ _ tree, htree⟩
  | nothing =>
      exact ⟨_, rfl, rfl, .refl _ tree, fun rest => Node.lookup?_append _ _ tree, htree⟩
  | stores node =>
      obtain ⟨after, hafter⟩ := Node.exists_insertAt h.1 name node
      obtain ⟨hdiffers, -, hnode⟩ := Node.insertAt_done hafter
      exact ⟨.changed after, by rw [act, hafter]; rfl, rfl, hdiffers, hnode,
        htree.insertAt h.2 hafter⟩
  | erases =>
      obtain ⟨after, hafter⟩ := Node.exists_eraseAt h
      obtain ⟨hdiffers, -⟩ := Node.eraseAt_done hafter
      exact ⟨.changed after, by rw [act, hafter]; rfl, rfl, hdiffers,
        Node.lookup?_of_eraseAt htree hafter, htree.eraseAt hafter⟩

end Effect

namespace Edit

/-- The node that an edit brings along has distinct names in every directory. -/
def Sound : Edit → Prop
  | .install _ node _ => node.Distinct
  | _ => True

/-- How an edit reports that it fails at a target below the root. -/
def refusal (reason : FileError.Reason) : Edit → FileError
  | .mkdir path =>
    { reason, command := "mkdir", operand := path, action := "cannot create directory" }
  | .touch path => { reason, command := "touch", operand := path, action := "cannot touch" }
  | .writeFile path _ => { reason, command := "write", operand := path, action := "cannot write" }
  | .install path _ command => { reason, command, operand := path, action := "cannot write" }
  | .rm path _ => { reason, command := "rm", operand := path, action := "cannot remove" }

/-- What storing a node over another comes to do: it replaces a file, not a directory. -/
def replace (e : Edit) (node : Node) (parent : Bool) (there : Option Node) : Effect :=
  if !parent then .refuses (e.refusal .notFound)
  else if there.any Node.isDirectory then .refuses (e.refusal .isDirectory)
  else .stores node

/-- What an edit comes to do at a name, by whether the directory of the target is there and by the
node at the target. -/
def effect (name : String) (parent : Bool) (there : Option Node) (e : Edit) : Effect :=
  match e with
  | .mkdir _ =>
    if !parent then .refuses (e.refusal .notFound)
    else if there.isSome then .refuses (e.refusal .alreadyExists)
    else .stores (.directory name [] none)
  | .touch _ =>
    if there.isSome then .nothing
    else if !parent then .refuses (e.refusal .notFound)
    else .stores (.file name "" none)
  | .writeFile _ content => e.replace (.file name content none) parent there
  | .install _ node _ => e.replace (node.rename name) parent there
  | .rm _ recursive =>
    match there with
    | none => .refuses (e.refusal .notFound)
    | some node =>
      if node.isDirectory ∧ ¬recursive then .refuses (e.refusal .isDirectory) else .erases

theorem replace_fits {e : Edit} {node : Node} (h : node.Distinct) (parent : Bool)
    (there : Option Node) : (e.replace node parent there).Fits parent there := by
  unfold replace
  split
  · trivial
  · rename_i hparent
    split
    · trivial
    · exact ⟨by simpa using hparent, h⟩

theorem effect_fits {e : Edit} (h : e.Sound) (name : String) (parent : Bool)
    (there : Option Node) : (e.effect name parent there).Fits parent there := by
  cases e with
  | mkdir path =>
      cases parent <;> cases there <;> simp [effect, Effect.Fits, Node.distinct_directory_iff,
        Table.keys, Table.get?]
  | touch path =>
      cases parent <;> cases there <;> simp [effect, Effect.Fits, Node.distinct_file]
  | writeFile path content => exact replace_fits (Node.distinct_file _ _ _) parent there
  | install path node command => exact replace_fits (Node.Distinct.rename h name) parent there
  | rm path recursive =>
      cases there with
      | none => trivial
      | some node =>
          simp only [effect]
          split
          · trivial
          · rfl

variable {tree : Node} {cwd place : List String} {name : String}

/-- Installing takes the effect of replacing. -/
theorem install_eq {path : String} (h : Path.resolve cwd path = place ++ [name]) (node : Node)
    (command : String) : Files.install tree cwd path node command =
      ((Edit.install path node command).effect name (tree.entriesAt? place).isSome
        (tree.lookup? (place ++ [name]))).act tree place name := by
  simp only [Files.install, h, lastOf?_snoc, effect, replace, Node.lookup?_snoc]
  cases hentries : tree.entriesAt? place with
  | none => rfl
  | some entries =>
      have hthere : (Table.get? name entries).any Node.isDirectory =
          Files.holdsDirectory entries name := rfl
      simp only [Option.isSome_some, Bool.not_true, Option.bind_some, hthere,
        Bool.false_eq_true, if_false]
      cases Files.holdsDirectory entries name <;> rfl

/-- An edit takes an effect that is decided by its target and the directory of its target. -/
theorem perform_eq {e : Edit} (h : Path.resolve cwd e.path = place ++ [name]) :
    e.perform tree cwd =
      (e.effect name (tree.entriesAt? place).isSome (tree.lookup? (place ++ [name]))).act
        tree place name := by
  cases e with
  | mkdir path =>
      change Path.resolve cwd path = _ at h
      simp only [perform, Files.mkdir, h, lastOf?_snoc, effect, Node.lookup?_snoc]
      cases hentries : tree.entriesAt? place with
      | none => rfl
      | some entries =>
          have hthere : (Table.get? name entries).isSome = Table.contains name entries := rfl
          simp only [Option.isSome_some, Bool.not_true, Option.bind_some, hthere,
            Bool.false_eq_true, if_false]
          cases Table.contains name entries <;> rfl
  | touch path =>
      change Path.resolve cwd path = _ at h
      simp only [perform, Files.touch, h, lastOf?_snoc, effect]
      cases tree.lookup? (place ++ [name]) with
      | some node => rfl
      | none => cases tree.entriesAt? place <;> rfl
  | writeFile path content => exact install_eq h (.file path content none) "write"
  | install path node command => exact install_eq h node command
  | rm path recursive =>
      change Path.resolve cwd path = _ at h
      simp only [perform, Files.rm, h, lastOf?_snoc, effect]
      cases tree.lookup? (place ++ [name]) with
      | none => rfl
      | some node =>
          by_cases hrefused : node.isDirectory ∧ ¬recursive
          · simp only [if_pos hrefused]
            rfl
          · simp only [if_neg hrefused]
            rfl

/-- The effect of an edit of a tree at a target. -/
abbrev effectAt (e : Edit) (tree : Node) (place : List String) (name : String) : Effect :=
  e.effect name (tree.entriesAt? place).isSome (tree.lookup? (place ++ [name]))

theorem perform_done (htree : tree.Distinct) {e : Edit} (he : e.Sound)
    (h : Path.resolve cwd e.path = place ++ [name]) :
    ∃ outcome, e.perform tree cwd = .ok outcome ∧
      (e.effectAt tree place name).Done tree (place ++ [name]) outcome := by
  rw [perform_eq h]
  exact Effect.act_done htree (effect_fits he name _ _)

end Edit

/-! ### Two edits -/

/-- Two places of which neither is at or below the other. -/
def Path.Apart (t u : List String) : Prop :=
  ¬ t <+: u ∧ ¬ u <+: t

instance (t u : List String) : Decidable (Path.Apart t u) :=
  inferInstanceAs (Decidable (¬ t <+: u ∧ ¬ u <+: t))

theorem Path.Apart.symm {t u : List String} (h : Apart t u) : Apart u t :=
  ⟨h.2, h.1⟩

theorem Path.Apart.below {t u : List String} (h : Apart t u) (rest : List String) :
    Apart (t ++ rest) u := by
  have hfront : t <+: t ++ rest := List.prefix_append t rest
  refine ⟨fun habove => h.1 (hfront.trans habove), fun hbelow => ?_⟩
  rcases List.prefix_or_prefix_of_prefix hfront hbelow with htu | hut
  · exact h.1 htu
  · exact h.2 hut

/-- The root is above every place. -/
theorem Path.Apart.exists_snoc {t u : List String} (h : Apart t u) :
    ∃ place name, t = place ++ [name] := by
  rcases List.eq_nil_or_concat t with rfl | ⟨place, name, rfl⟩
  · exact absurd List.nil_prefix h.1
  · exact ⟨place, name, List.concat_eq_append⟩

namespace Edit

variable {tree other : Node} {place target : List String} {name : String}

/-- A change elsewhere does not change the effect of an edit. -/
theorem effectAt_eq (h : Node.DiffersAt target tree other)
    (hapart : Path.Apart (place ++ [name]) target) (e : Edit) :
    e.effectAt other place name = e.effectAt tree place name ∧
      other.lookup? (place ++ [name]) = tree.lookup? (place ++ [name]) := by
  have hnode := h.nodes _ hapart.2 hapart.1
  have hplace : ¬ target <+: place := fun hbelow =>
    hapart.2 (hbelow.trans (List.prefix_append place [name]))
  have hparent := Node.isSome_entriesAt?_eq (h.labels place hplace)
  exact ⟨by rw [effectAt, effectAt, hnode, hparent], hnode⟩

/-- At the target of an edit it does not matter whether another edit elsewhere comes before or
behind it. -/
theorem lookup?_swapped {e : Edit} {target : List String} {first second second' : Outcome}
    (hapart : Path.Apart (place ++ [name]) target)
    (hfirst : (e.effectAt tree place name).Done tree (place ++ [name]) first)
    (hsecond : Node.DiffersAt target (first.tree tree) (second.tree (first.tree tree)))
    (hother : Node.DiffersAt target tree other)
    (hsecond' : (e.effectAt other place name).Done other (place ++ [name]) second')
    (rest : List String) :
    (second.tree (first.tree tree)).lookup? (place ++ [name] ++ rest) =
      (second'.tree other).lookup? (place ++ [name] ++ rest) := by
  have hbelow := hapart.below rest
  obtain ⟨heffect, hnode⟩ := effectAt_eq hother hapart e
  rw [hsecond.nodes _ hbelow.2 hbelow.1, hfirst.left, hsecond'.left, heffect, hnode]

/-- Two edits at targets of which neither is at or below the other, in either order: each succeeds
as it does alone, or fails with the same error, and the two trees that come out agree in everything
but the order of entries. -/
theorem perform_commutes {tree : Node} (htree : tree.Distinct) {cwd : List String} {e f : Edit}
    (he : e.Sound) (hf : f.Sound)
    (hapart : Path.Apart (Path.resolve cwd e.path) (Path.resolve cwd f.path)) :
    ∃ first second first' second' : Outcome,
      (e.perform tree cwd = .ok first ∧ f.perform (first.tree tree) cwd = .ok second) ∧
      (f.perform tree cwd = .ok first' ∧ e.perform (first'.tree tree) cwd = .ok second') ∧
      second'.error? = first.error? ∧ second.error? = first'.error? ∧
      (second.tree (first.tree tree)).agrees (second'.tree (first'.tree tree)) = true := by
  obtain ⟨place, name, hepath⟩ := hapart.exists_snoc
  obtain ⟨place', name', hfpath⟩ := hapart.symm.exists_snoc
  rw [hepath, hfpath] at hapart
  obtain ⟨first, hfirst, hdone⟩ := perform_done htree he hepath
  obtain ⟨first', hfirst', hdone'⟩ := perform_done htree hf hfpath
  obtain ⟨second, hsecond, hlater⟩ := perform_done hdone.distinct hf hfpath
  obtain ⟨second', hsecond', hlater'⟩ := perform_done hdone'.distinct he hepath
  have herror : second'.error? = first.error? := by
    rw [hlater'.error?, hdone.error?, (effectAt_eq hdone'.differs hapart e).1]
  have herror' : second.error? = first'.error? := by
    rw [hlater.error?, hdone'.error?, (effectAt_eq hdone.differs hapart.symm f).1]
  refine ⟨first, second, first', second', ⟨hfirst, hsecond⟩, ⟨hfirst', hsecond'⟩, herror, herror',
    Node.agrees_of_alike hlater.distinct hlater'.distinct fun q => ?_⟩
  by_cases hq : place ++ [name] <+: q
  · obtain ⟨rest, rfl⟩ := hq
    rw [lookup?_swapped hapart hdone hlater.differs hdone'.differs hlater']
  · by_cases hq' : place' ++ [name'] <+: q
    · obtain ⟨rest, rfl⟩ := hq'
      rw [lookup?_swapped hapart.symm hdone' hlater'.differs hdone.differs hlater]
    · rw [hlater.differs.labels q hq', hdone.differs.labels q hq, hlater'.differs.labels q hq,
        hdone'.differs.labels q hq']

/-- A directory is installed through a path that goes up from a missing one, and another is made
beside it: the one that is made first comes first. -/
theorem perform_commutes_beside :
    let tree : Node := .directory "root" [("a", .file "a" "old" none)] none
    let e := Edit.install "b/../c" (.directory "d" [("e", .file "e" "" none)] none) "install"
    let f := Edit.mkdir "/f/"
    ∃ first second first' second' : Outcome,
      (e.perform tree [] = .ok first ∧ f.perform (first.tree tree) [] = .ok second) ∧
      (f.perform tree [] = .ok first' ∧ e.perform (first'.tree tree) [] = .ok second') ∧
      (second.tree (first.tree tree)).agrees (second'.tree (first'.tree tree)) = true ∧
      (second.tree (first.tree tree)).paths = ["/a", "/c/", "/c/e", "/f/"] ∧
      (second'.tree (first'.tree tree)).paths = ["/a", "/f/", "/c/", "/c/e"] := by
  intro tree e f
  have hempty : ∀ name : String, (Node.directory name [] none).Distinct := fun name =>
    Node.distinct_directory_iff.mpr ⟨by simp [Table.keys], by simp [Table.get?]⟩
  have htree : tree.Distinct := (hempty "root").insert (Node.distinct_file "a" "old" none)
  have he : e.Sound := (hempty "d").insert (Node.distinct_file "e" "" none)
  obtain ⟨first, second, first', second', hinstall, hmake, -, -, hagrees⟩ :=
    @perform_commutes tree htree [] e f he trivial (by decide +kernel)
  obtain ⟨hfirst, hsecond⟩ := hinstall
  obtain ⟨hfirst', hsecond'⟩ := hmake
  refine ⟨first, second, first', second', ⟨hfirst, hsecond⟩, ⟨hfirst', hsecond'⟩, hagrees, ?_, ?_⟩
  · cases hfirst
    cases hsecond
    decide +kernel
  · cases hfirst'
    cases hsecond'
    decide +kernel

end Edit

end ToyC
