import Mathlib.Logic.Relation
import ToyC.Proofs.Run.ScopeTree

/-!
The laws of scopes in a tree, whatever was done to make it. A name that is bound around a
scope has a nearest binding there. Asking for the name, reading and assigning it all go by
this one: they succeed where there is one, and an assignment changes it and nothing else in
the tree. It is seen in all scopes that have the same nearest binding, siblings as well. A
declaration binds in its own scope, and is seen in that scope and inside it down to the
scopes that bind the name themselves.
-/

namespace ToyC.ScopeTree

/-- The trees that are made from a root. -/
inductive Built : ScopeTree → Prop
  | root : Built root
  | child {tree : ScopeTree} {i : Nat} (h : Built tree) (hi : i < tree.nodes.length) :
      Built (tree.child i).1
  | define {tree : ScopeTree} {i : Nat} (h : Built tree) (hi : i < tree.nodes.length)
      (name : String) (value : Number) : Built (tree.define i name value)
  | set {tree : ScopeTree} {i : Nat} (h : Built tree) (hi : i < tree.nodes.length)
      (name : String) (value : Number) : Built (tree.set i name value).1

/-! ### A scope by itself -/

/-- The scope around a scope. -/
def parent? (tree : ScopeTree) (i : Nat) : Option Nat :=
  (tree.nodes[i]?).bind (·.parent)

/-- The number that a scope itself binds a name to. -/
def own? (tree : ScopeTree) (i : Nat) (name : String) : Option Number :=
  (tree.nodes[i]?).bind fun node => Table.get? name node.bindings

/-- Whether a scope itself binds a name. -/
def binds (tree : ScopeTree) (i : Nat) (name : String) : Bool :=
  (tree.own? i name).isSome

/-- The names that a scope itself binds, in the order in which they came. -/
def names (tree : ScopeTree) (i : Nat) : List String :=
  (tree.nodes[i]?).elim [] fun node => Table.keys node.bindings

variable {tree after : ScopeTree} {i j k c d l : Nat} {name other : String} {value : Number}

theorem mem_names_iff : name ∈ tree.names i ↔ tree.binds i name = true := by
  cases hnode : tree.nodes[i]? with
  | none => simp [names, binds, own?, hnode]
  | some node =>
      have hnames : tree.names i = Table.keys node.bindings := by simp [names, hnode]
      have hown : tree.own? i name = Table.get? name node.bindings := by simp [own?, hnode]
      rw [hnames, binds, hown, Option.isSome_iff_ne_none, ne_eq, Table.get?_eq_none_iff, not_not]

theorem lt_of_binds (h : tree.binds i name = true) : i < tree.nodes.length := by
  obtain ⟨value, hown⟩ := Option.isSome_iff_exists.mp h
  obtain ⟨node, hnode, -⟩ := Option.bind_eq_some_iff.mp hown
  exact (List.getElem?_eq_some_iff.mp hnode).1

/-! ### Scopes around a scope -/

/-- Each parent is made before its children. -/
def Ordered (tree : ScopeTree) : Prop :=
  ∀ i j, tree.parent? i = some j → j < i

theorem parent?_define (tree : ScopeTree) (i : Nat) (name : String) (value : Number) (l : Nat) :
    (tree.define i name value).parent? l = tree.parent? l := by
  by_cases hl : l = i
  · subst hl
    cases hnode : tree.nodes[l]? with
    | none => simp [parent?, ScopeTree.define, hnode]
    | some node => simp [parent?, getElem?_define_self hnode, hnode]
  · rw [parent?, getElem?_define_of_ne hl, ← parent?]

theorem Ordered.define (h : tree.Ordered) (i : Nat) (name : String) (value : Number) :
    (tree.define i name value).Ordered := by
  intro l j hl
  rw [parent?_define] at hl
  exact h l j hl

theorem Ordered.child (h : tree.Ordered) (hi : i < tree.nodes.length) :
    (tree.child i).1.Ordered := by
  intro l j hl
  obtain ⟨node, hnode, hparent⟩ := Option.bind_eq_some_iff.mp hl
  by_cases hold : l < tree.nodes.length
  · rw [getElem?_of_isPrefix (tree.nodes_isPrefix_child i) hold] at hnode
    exact h l j (Option.bind_eq_some_iff.mpr ⟨node, hnode, hparent⟩)
  · have hlength := (List.getElem?_eq_some_iff.mp hnode).1
    have hnew : l = tree.nodes.length := by
      simp only [ScopeTree.child, List.length_append, List.length_singleton] at hlength
      omega
    rw [hnew, getElem?_child_new] at hnode
    cases hnode
    cases hparent
    omega

theorem Built.ordered (h : Built tree) : tree.Ordered := by
  induction h with
  | root =>
      intro i j h
      cases i <;> simp [parent?, ScopeTree.root] at h
  | child _ hi ih => exact ih.child hi
  | define _ _ name value ih => exact ih.define _ name value
  | @set tree i _ _ name value ih =>
      cases hbinder : tree.binder? i name with
      | none => rwa [set_of_binder?_none hbinder]
      | some k =>
          rw [set_of_binder?_some hbinder]
          exact ih.define k name value

/-- A scope is around itself, and its parent and what is around that are around it. -/
def Around (tree : ScopeTree) (k d : Nat) : Prop :=
  Relation.ReflTransGen (fun inner outer => tree.parent? inner = some outer) d k

theorem around_iff : tree.Around k d ↔ k = d ∨ ∃ j, tree.parent? d = some j ∧ tree.Around k j := by
  rw [Around, Relation.ReflTransGen.cases_head_iff]
  exact or_congr_left eq_comm

theorem Around.trans (h : tree.Around k l) (h' : tree.Around l d) : tree.Around k d :=
  Relation.ReflTransGen.trans h' h

theorem Ordered.le (h : tree.Ordered) (haround : tree.Around k d) : k ≤ d := by
  induction haround with
  | refl => exact Nat.le_refl d
  | tail _ hparent ih => exact Nat.le_trans (Nat.le_of_lt (h _ _ hparent)) ih

theorem Ordered.antisymm (h : tree.Ordered) (haround : tree.Around k d)
    (hback : tree.Around d k) : k = d :=
  Nat.le_antisymm (h.le haround) (h.le hback)

/-- A scope is reached from a name inside it, if nothing nearer binds the name. -/
structure Reaches (tree : ScopeTree) (name : String) (k d : Nat) : Prop where
  around : tree.Around k d
  nearest : ∀ l, tree.Around k l → tree.Around l d → tree.binds l name = true → l = k

theorem Ordered.reaches_self (h : tree.Ordered) : tree.Reaches name d d :=
  ⟨.refl, fun _ hout hin _ => h.antisymm hin hout⟩

/-- The first scope that binds a name, from a scope to the root. -/
structure Nearest (tree : ScopeTree) (name : String) (k d : Nat) : Prop extends
    Reaches tree name k d where
  binds : tree.binds k name = true

/-- Scopes are searched outwards, each by its own bindings first. -/
theorem Ordered.binder?_eq (h : tree.Ordered) (d : Nat) (name : String) : tree.binder? d name =
    if tree.binds d name then some d else (tree.parent? d).bind (tree.binder? · name) := by
  cases hnode : tree.nodes[d]? with
  | none => simp [binder?_missing hnode, binds, own?, parent?, hnode]
  | some node =>
      have hbinds : tree.binds d name = Table.contains name node.bindings := by
        simp [binds, own?, hnode, Table.contains]
      have hparent : tree.parent? d = node.parent := by simp [parent?, hnode]
      by_cases hname : Table.contains name node.bindings = true
      · rw [binder?_self hnode hname, hbinds, if_pos hname]
      · rw [hbinds, if_neg hname]
        cases hup : node.parent with
        | none =>
            rw [binder?_outermost hnode (by simp [hup]) hname, hparent, hup, Option.bind_none]
        | some j =>
            have hlt : j < d := h d j (hparent.trans hup)
            rw [binder?_inner hnode hup hlt hname, hparent, hup, Option.bind_some]

theorem Ordered.binder?_eq_some_iff (h : tree.Ordered) :
    tree.binder? d name = some k ↔ tree.Nearest name k d := by
  induction d using Nat.strongRecOn with
  | _ d ih =>
      rw [h.binder?_eq]
      by_cases hbinds : tree.binds d name = true
      · rw [if_pos hbinds, Option.some.injEq]
        constructor
        · rintro rfl
          exact ⟨h.reaches_self, hbinds⟩
        · intro hnearest
          exact hnearest.nearest d hnearest.around .refl hbinds
      · rw [if_neg hbinds, Option.bind_eq_some_iff]
        constructor
        · rintro ⟨j, hparent, hbinder⟩
          have hnearest := (ih j (h d j hparent)).mp hbinder
          refine ⟨⟨.head hparent hnearest.around, fun l hout hin hl => ?_⟩, hnearest.binds⟩
          obtain rfl | ⟨j', hparent', hin⟩ := around_iff.mp hin
          · exact absurd hl hbinds
          · rw [hparent] at hparent'
            cases hparent'
            exact hnearest.nearest l hout hin hl
        · intro hnearest
          obtain rfl | ⟨j, hparent, haround⟩ := around_iff.mp hnearest.around
          · exact absurd hnearest.binds hbinds
          · refine ⟨j, hparent, (ih j (h d j hparent)).mpr ⟨⟨haround, fun l hout hin hl => ?_⟩,
              hnearest.binds⟩⟩
            exact hnearest.nearest l hout (.head hparent hin) hl

theorem Ordered.nearest_unique (h : tree.Ordered) (hk : tree.Nearest name k d)
    (hl : tree.Nearest name l d) : k = l := by
  rw [← h.binder?_eq_some_iff] at hk hl
  exact Option.some.inj (hk.symm.trans hl)

/-! ### Reading -/

theorem Ordered.has_iff (h : tree.Ordered) :
    tree.has c name = true ↔ ∃ k, tree.Nearest name k c := by
  rw [has, Option.isSome_iff_exists]
  exact exists_congr fun k => h.binder?_eq_some_iff

theorem get_eq_own? (tree : ScopeTree) (d : Nat) (name : String) :
    tree.get d name = ((tree.binder? d name).bind (tree.own? · name)).elim
      (.error (.unknownIdentifier name)) .ok := by
  unfold get own?
  cases (tree.binder? d name).bind fun j => (tree.nodes[j]?).bind fun node =>
    Table.get? name node.bindings <;> rfl

/-- A name stands for the number of its nearest binding. -/
theorem Ordered.get_of_nearest (h : tree.Ordered) (hnearest : tree.Nearest name k d)
    (hown : tree.own? k name = some value) : tree.get d name = .ok value := by
  rw [get_eq_own?, h.binder?_eq_some_iff.mpr hnearest, Option.bind_some, hown, Option.elim_some]

theorem get_of_not_has (hnot : ¬ tree.has c name = true) :
    tree.get c name = .error (.unknownIdentifier name) := by
  have hnone : tree.binder? c name = none := by simpa [has] using hnot
  rw [get_eq_own?, hnone, Option.bind_none, Option.elim_none]

theorem Ordered.has_iff_get (h : tree.Ordered) :
    tree.has c name = true ↔ ∃ value, tree.get c name = .ok value := by
  constructor
  · intro hhas
    obtain ⟨k, hnearest⟩ := h.has_iff.mp hhas
    obtain ⟨value, hown⟩ := Option.isSome_iff_exists.mp hnearest.binds
    exact ⟨value, h.get_of_nearest hnearest hown⟩
  · rintro ⟨value, hget⟩
    by_contra hnot
    rw [get_of_not_has hnot] at hget
    cases hget

/-- Where the nearest bindings are the same and have the same number, so has the name. -/
theorem Ordered.get_congr (h : tree.Ordered) (hafter : after.Ordered)
    (hnearest : ∀ k, after.Nearest name k d ↔ tree.Nearest name k d)
    (hown : ∀ k, tree.Nearest name k d → after.own? k name = tree.own? k name) :
    after.get d name = tree.get d name := by
  have hbinder : after.binder? d name = tree.binder? d name :=
    Option.ext fun k => by rw [hafter.binder?_eq_some_iff, hnearest, h.binder?_eq_some_iff]
  rw [get_eq_own?, get_eq_own?, hbinder]
  cases hfound : tree.binder? d name with
  | none => rfl
  | some k => simp only [Option.bind_some, hown k (h.binder?_eq_some_iff.mp hfound)]

/-! ### Searching outwards -/

theorem Ordered.has_outwards (h : tree.Ordered) (d : Nat) (name : String) : tree.has d name =
    (tree.binds d name || (tree.parent? d).any (tree.has · name)) := by
  rw [has, h.binder?_eq]
  by_cases hbinds : tree.binds d name = true
  · simp [hbinds]
  · cases tree.parent? d <;> simp [hbinds, has]

theorem Ordered.get_outwards (h : tree.Ordered) (d : Nat) (name : String) : tree.get d name =
    (tree.own? d name).elim
      ((tree.parent? d).elim (.error (.unknownIdentifier name)) (tree.get · name)) .ok := by
  rw [get_eq_own?, h.binder?_eq]
  cases hown : tree.own? d name with
  | some value => simp [binds, hown]
  | none => cases tree.parent? d <;> simp [binds, hown, get_eq_own?]

theorem Ordered.set_outwards (h : tree.Ordered) (d : Nat) (name : String) (value : Number) :
    tree.set d name value =
      if tree.binds d name then (tree.define d name value, true)
      else (tree.parent? d).elim (tree, false) (ScopeTree.set · name value tree) := by
  unfold set
  rw [h.binder?_eq]
  by_cases hbinds : tree.binds d name = true
  · simp [hbinds]
  · cases tree.parent? d <;> simp [hbinds]

/-! ### Changing -/

/-- One binding of a tree is changed, or made where there is none. -/
structure Rebinds (tree after : ScopeTree) (k : Nat) (name : String) (value : Number) : Prop where
  parent : ∀ d, after.parent? d = tree.parent? d
  elsewhere : ∀ d, d ≠ k → after.nodes[d]? = tree.nodes[d]?
  own : after.own? k name = some value
  others : ∀ other, other ≠ name → after.own? k other = tree.own? k other
  names : after.names k =
    if name ∈ tree.names k then tree.names k else tree.names k ++ [name]

theorem rebinds_define (hk : k < tree.nodes.length) (name : String) (value : Number) :
    Rebinds tree (tree.define k name value) k name value := by
  obtain ⟨node, hnode⟩ : ∃ node, tree.nodes[k]? = some node := ⟨_, List.getElem?_eq_getElem hk⟩
  have hchanged := getElem?_define_self hnode name value
  refine ⟨parent?_define tree k name value, fun d hd => getElem?_define_of_ne hd name value,
    ?_, fun other hother => ?_, ?_⟩
  · rw [own?, hchanged, Option.bind_some, Table.get?_insert_self]
  · rw [own?, own?, hchanged, hnode, Option.bind_some, Option.bind_some,
      Table.get?_insert_of_ne hother]
  · rw [ScopeTree.names, ScopeTree.names, hchanged, hnode, Option.elim_some, Option.elim_some,
      Table.keys_insert]

namespace Rebinds

theorem around_iff (h : Rebinds tree after k name value) :
    after.Around l d ↔ tree.Around l d := by
  simp only [Around, h.parent]

theorem ordered (h : Rebinds tree after k name value) (htree : tree.Ordered) : after.Ordered :=
  fun i j hparent => htree i j ((h.parent i).symm.trans hparent)

theorem own?_of_ne (h : Rebinds tree after k name value) (hne : ¬ (l = k ∧ other = name)) :
    after.own? l other = tree.own? l other := by
  by_cases hl : l = k
  · rw [hl]
    exact h.others other fun hother => hne ⟨hl, hother⟩
  · rw [own?, own?, h.elsewhere l hl]

theorem binds_of_ne (h : Rebinds tree after k name value) (hne : ¬ (l = k ∧ other = name)) :
    after.binds l other = tree.binds l other := by
  rw [binds, binds, h.own?_of_ne hne]

theorem binds_self (h : Rebinds tree after k name value) : after.binds k name = true := by
  rw [binds, h.own, Option.isSome_some]

/-- What was bound still is. -/
theorem binds_mono (h : Rebinds tree after k name value) (hl : tree.binds l other = true) :
    after.binds l other = true := by
  by_cases hsame : l = k ∧ other = name
  · rw [hsame.1, hsame.2]
    exact h.binds_self
  · rwa [h.binds_of_ne hsame]

/-- A binding is the nearest one for the scopes that it reaches. -/
theorem nearest_iff (h : Rebinds tree after k name value) :
    after.Nearest name k d ↔ tree.Reaches name k d := by
  constructor
  · intro hafter
    exact ⟨h.around_iff.mp hafter.around, fun l hout hin hl =>
      hafter.nearest l (h.around_iff.mpr hout) (h.around_iff.mpr hin) (h.binds_mono hl)⟩
  · intro htree
    refine ⟨⟨h.around_iff.mpr htree.around, fun l hout hin hl => ?_⟩, h.binds_self⟩
    by_contra hne
    rw [h.binds_of_ne fun hsame => hne hsame.1] at hl
    exact hne (htree.nearest l (h.around_iff.mp hout) (h.around_iff.mp hin) hl)

/-- Scopes that it does not reach keep their nearest binding, and so do other names. -/
theorem nearest_iff_of_not_reaches (h : Rebinds tree after k name value) (htree : tree.Ordered)
    (hnot : ¬ (other = name ∧ tree.Reaches name k d)) :
    after.Nearest other l d ↔ tree.Nearest other l d := by
  constructor
  · intro hafter
    have hne : ¬ (l = k ∧ other = name) := by
      rintro ⟨rfl, rfl⟩
      exact hnot ⟨rfl, h.nearest_iff.mp hafter⟩
    refine ⟨⟨h.around_iff.mp hafter.around, fun m hout hin hm => ?_⟩, ?_⟩
    · exact hafter.nearest m (h.around_iff.mpr hout) (h.around_iff.mpr hin) (h.binds_mono hm)
    · rw [← h.binds_of_ne hne]
      exact hafter.binds
  · intro hbefore
    refine ⟨⟨h.around_iff.mpr hbefore.around, fun m hout hin hm => ?_⟩, h.binds_mono hbefore.binds⟩
    rw [h.around_iff] at hout hin
    by_cases hsame : m = k ∧ other = name
    · -- a new binding between the scope and its nearest one would reach the scope
      obtain ⟨rfl, rfl⟩ := hsame
      refine absurd ⟨rfl, hin, fun p hout' hin' hp => ?_⟩ hnot
      have hpl : p = l := hbefore.nearest p (hout.trans hout') hin' hp
      subst hpl
      exact htree.antisymm hout hout'
    · rw [h.binds_of_ne hsame] at hm
      exact hbefore.nearest m hout hin hm

theorem get_of_reaches (h : Rebinds tree after k name value) (htree : tree.Ordered)
    (hreaches : tree.Reaches name k d) : after.get d name = .ok value :=
  (h.ordered htree).get_of_nearest (h.nearest_iff.mpr hreaches) h.own

theorem get_of_not_reaches (h : Rebinds tree after k name value) (htree : tree.Ordered)
    (hnot : ¬ (other = name ∧ tree.Reaches name k d)) :
    after.get d other = tree.get d other := by
  refine htree.get_congr (h.ordered htree) (fun l => h.nearest_iff_of_not_reaches htree hnot)
    fun l hnearest => h.own?_of_ne ?_
  rintro ⟨rfl, rfl⟩
  exact hnot ⟨rfl, hnearest.toReaches⟩

/-- Where there was a binding, no name comes and none moves. -/
theorem names_eq (h : Rebinds tree after k name value) (hbinds : tree.binds k name = true)
    (d : Nat) : after.names d = tree.names d := by
  by_cases hd : d = k
  · rw [hd, h.names, if_pos (mem_names_iff.mpr hbinds)]
  · rw [ScopeTree.names, ScopeTree.names, h.elsewhere d hd]

end Rebinds

/-- Some scopes see a new number under a name, and no scope sees anything else change. -/
structure SeenBy (sees : Nat → Prop) (tree after : ScopeTree) (name : String) (value : Number) :
    Prop where
  new : ∀ d, sees d → after.get d name = .ok value
  same : ∀ d other, ¬ (other = name ∧ sees d) → after.get d other = tree.get d other

theorem Rebinds.seenBy (h : Rebinds tree after k name value) (htree : tree.Ordered) :
    SeenBy (tree.Reaches name k) tree after name value :=
  ⟨fun _ => h.get_of_reaches htree, fun _ _ => h.get_of_not_reaches htree⟩

/-! ### The laws -/

theorem Ordered.set_of_nearest (h : tree.Ordered) (hnearest : tree.Nearest name k c)
    (value : Number) : tree.set c name value = (tree.define k name value, true) := by
  simp only [set, h.binder?_eq_some_iff.mpr hnearest]

theorem set_of_not_has (hnot : tree.has c name = false) (value : Number) :
    tree.set c name value = (tree, false) := by
  have hnone : tree.binder? c name = none := by simpa [has] using hnot
  simp only [set, hnone]

theorem Ordered.has_iff_set (h : tree.Ordered) (value : Number) :
    tree.has c name = true ↔ (tree.set c name value).2 = true := by
  by_cases hhas : tree.has c name = true
  · obtain ⟨k, hnearest⟩ := h.has_iff.mp hhas
    rw [h.set_of_nearest hnearest]
    exact iff_of_true hhas rfl
  · rw [Bool.not_eq_true] at hhas
    rw [set_of_not_has hhas, hhas]

/-- An assignment that succeeds changes the nearest binding. -/
theorem Ordered.rebinds_set (h : tree.Ordered) (hnearest : tree.Nearest name k c)
    (value : Number) : Rebinds tree (tree.set c name value).1 k name value := by
  rw [h.set_of_nearest hnearest]
  exact rebinds_define (lt_of_binds hnearest.binds) name value

/-- In any tree that is made from a root, a name has a number in a scope, can be assigned there and
has a nearest binding there, all or none. An assignment changes the nearest binding and is seen
where that is the nearest one; without one it changes nothing. A declaration changes the binding of
its own scope, and is seen in this scope and inside it where no nearer scope binds the name. -/
theorem Built.changes_nearest (h : Built tree) (hc : c < tree.nodes.length) (name : String)
    (value : Number) :
    let assigned := (tree.set c name value).1
    let declared := tree.define c name value
    ((tree.has c name = true ↔ ∃ old, tree.get c name = .ok old) ∧
      (tree.has c name = true ↔ (tree.set c name value).2 = true) ∧
      (tree.has c name = true ↔ ∃ k, tree.Nearest name k c)) ∧
    (∀ k, tree.Nearest name k c →
      Rebinds tree assigned k name value ∧ (∀ d, assigned.names d = tree.names d) ∧
      SeenBy (tree.Nearest name k) tree assigned name value) ∧
    (tree.has c name = false → assigned = tree) ∧
    Rebinds tree declared c name value ∧
    (∀ d, declared.Nearest name c d ↔ tree.Reaches name c d) ∧
    SeenBy (tree.Reaches name c) tree declared name value := by
  intro assigned declared
  have hordered := h.ordered
  have hdeclared : Rebinds tree declared c name value := rebinds_define hc name value
  refine ⟨⟨hordered.has_iff_get, hordered.has_iff_set value, hordered.has_iff⟩,
    fun k hnearest => ?_, fun hnot => congrArg Prod.fst (set_of_not_has hnot value), hdeclared,
    fun d => hdeclared.nearest_iff, hdeclared.seenBy hordered⟩
  have hassigned : Rebinds tree assigned k name value := hordered.rebinds_set hnearest value
  have hsees : tree.Nearest name k = tree.Reaches name k :=
    funext fun d => propext ⟨Nearest.toReaches, fun hreaches => ⟨hreaches, hnearest.binds⟩⟩
  refine ⟨hassigned, hassigned.names_eq hnearest.binds, ?_⟩
  rw [hsees]
  exact hassigned.seenBy hordered

/-- A root that binds `x` and `y`, a scope in it that binds `x` and has a scope inside, and another
in it that binds nothing. -/
def siblings : ScopeTree :=
  let outer := ((root.define 0 "x" 1).define 0 "y" 2)
  ((((outer.child 0).1.define 1 "x" 3).child 1).1.child 0).1

theorem built_siblings : Built siblings :=
  .child (.child (.define (.child (.define (.define .root (by decide) _ _) (by decide) _ _)
    (by decide)) (by decide) _ _) (by decide)) (by decide)

/-- The innermost scope assigns the `x` of the scope around it, and the other scope sees the `x` of
the root as before. Assigning the `y` of the root is seen there, and so is declaring an `x`, which
no other scope sees. -/
theorem Built.changes_nearest_siblings :
    Built siblings ∧ 2 < siblings.nodes.length ∧ 3 < siblings.nodes.length ∧
      ((siblings.set 2 "x" 5).1.get 1 "x" = .ok 5 ∧ (siblings.set 2 "x" 5).1.get 3 "x" = .ok 1) ∧
      (siblings.set 2 "y" 7).1.get 3 "y" = .ok 7 ∧
      (siblings.define 3 "x" 8).get 3 "x" = .ok 8 ∧
      (siblings.define 3 "x" 8).get 2 "x" = .ok 3 := by
  have hinner : 2 < siblings.nodes.length := by decide
  have hother : 3 < siblings.nodes.length := by decide
  have hordered := built_siblings.ordered
  have hnearest : ∀ {c k name}, siblings.binder? c name = some k → siblings.Nearest name k c :=
    hordered.binder?_eq_some_iff.mp
  have hinnerX : siblings.Nearest "x" 1 2 := hnearest (by decide +kernel)
  have hotherX : siblings.Nearest "x" 0 3 := hnearest (by decide +kernel)
  have hinnerY : siblings.Nearest "y" 0 2 := hnearest (by decide +kernel)
  have hotherY : siblings.Nearest "y" 0 3 := hnearest (by decide +kernel)
  obtain ⟨-, hsetX, -⟩ := built_siblings.changes_nearest hinner "x" 5
  obtain ⟨-, hsetY, -⟩ := built_siblings.changes_nearest hinner "y" 7
  obtain ⟨-, -, -, -, -, hdeclared⟩ := built_siblings.changes_nearest hother "x" 8
  obtain ⟨-, -, hassignedX⟩ := hsetX 1 hinnerX
  obtain ⟨-, -, hassignedY⟩ := hsetY 0 hinnerY
  refine ⟨built_siblings, hinner, hother, ⟨hassignedX.new 1 (hnearest (by decide +kernel)), ?_⟩,
    hassignedY.new 3 hotherY, hdeclared.new 3 hordered.reaches_self, ?_⟩
  · rw [hassignedX.same 3 "x" ?_]
    · exact hordered.get_of_nearest hotherX rfl
    · rintro ⟨-, hnearestX⟩
      cases (hordered.nearest_unique hnearestX hotherX)
  · rw [hdeclared.same 2 "x" ?_]
    · exact hordered.get_of_nearest hinnerX rfl
    · rintro ⟨-, hreaches⟩
      exact absurd (hordered.le hreaches.around) (by decide)

end ToyC.ScopeTree
