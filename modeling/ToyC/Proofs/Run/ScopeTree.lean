import Mathlib.Data.List.Basic
import ToyC.Proofs.Table
import ToyC.Run.ScopeTree

/-!
Scopes that share a tree, and the chains that they stand for. What is read, declared
or assigned through a scope of a tree is what is read, declared or assigned in its
chain, so a program cannot tell the two apart. In the tree, though, a change is
made at one scope and is seen by all others that it encloses; it can only be the
scope itself or one around it. What is done through a scope with nothing around it
therefore changes no scope that was there before.
-/

namespace ToyC.ScopeTree

variable {tree after : ScopeTree} {i j : Nat}

/-! ### How scopes stand in a tree -/

/-- A scope is missing, or has no scope around it, or has one, which is older. -/
inductive Stands (tree : ScopeTree) : Nat → Prop
  | missing {i : Nat} (h : tree.nodes[i]? = none) : Stands tree i
  | outermost {i : Nat} {node : ScopeNode} (h : tree.nodes[i]? = some node)
      (hparent : ∀ j, node.parent = some j → ¬ j < i) : Stands tree i
  | inner {i j : Nat} {node : ScopeNode} (h : tree.nodes[i]? = some node)
      (hparent : node.parent = some j) (hlt : j < i) (outer : Stands tree j) : Stands tree i

theorem stands (tree : ScopeTree) (i : Nat) : Stands tree i := by
  induction i using Nat.strongRecOn with
  | _ i ih =>
      cases h : tree.nodes[i]? with
      | none => exact .missing h
      | some node =>
          cases hparent : node.parent with
          | none => exact .outermost h fun j hj => by simp [hparent] at hj
          | some j =>
              by_cases hlt : j < i
              · exact .inner h hparent hlt (ih j hlt)
              · refine .outermost h fun k hk => ?_
                rw [hparent] at hk
                exact Option.some.inj hk ▸ hlt

theorem chain_missing (h : tree.nodes[i]? = none) : tree.chain i = [] := by
  unfold chain
  simp only [h]

theorem chain_outermost {node : ScopeNode} (h : tree.nodes[i]? = some node)
    (hparent : ∀ j, node.parent = some j → ¬ j < i) : tree.chain i = [node.bindings] := by
  unfold chain
  simp only [h]
  split
  · rfl
  · rename_i j hj
    rw [if_neg (hparent j hj)]

theorem chain_inner {node : ScopeNode} (h : tree.nodes[i]? = some node)
    (hparent : node.parent = some j) (hlt : j < i) :
    tree.chain i = node.bindings :: tree.chain j := by
  rw [chain]
  simp only [h, hparent, if_pos hlt]

theorem binder?_missing (h : tree.nodes[i]? = none) (name : String) :
    tree.binder? i name = none := by
  unfold binder?
  simp only [h]

theorem binder?_self {node : ScopeNode} (h : tree.nodes[i]? = some node) {name : String}
    (hname : Table.contains name node.bindings = true) : tree.binder? i name = some i := by
  unfold binder?
  simp only [h, if_pos hname]

theorem binder?_outermost {node : ScopeNode} (h : tree.nodes[i]? = some node)
    (hparent : ∀ j, node.parent = some j → ¬ j < i) {name : String}
    (hname : ¬ Table.contains name node.bindings = true) : tree.binder? i name = none := by
  unfold binder?
  simp only [h, if_neg hname]
  split
  · rfl
  · rename_i j hj
    rw [if_neg (hparent j hj)]

theorem binder?_inner {node : ScopeNode} (h : tree.nodes[i]? = some node)
    (hparent : node.parent = some j) (hlt : j < i) {name : String}
    (hname : ¬ Table.contains name node.bindings = true) :
    tree.binder? i name = tree.binder? j name := by
  rw [binder?]
  simp only [h, if_neg hname, hparent, if_pos hlt]

/-- A scope encloses itself and the scopes inside it. -/
inductive Encloses (tree : ScopeTree) (k : Nat) : Nat → Prop
  | self : Encloses tree k k
  | inner {i j : Nat} {node : ScopeNode} (h : tree.nodes[i]? = some node)
      (hparent : node.parent = some j) (hlt : j < i) (outer : Encloses tree k j) :
      Encloses tree k i

theorem Encloses.le {k : Nat} (h : Encloses tree k i) : k ≤ i := by
  induction h with
  | self => exact Nat.le_refl k
  | inner _ _ hlt _ ih => omega

theorem Encloses.eq_or_outer {k : Nat} (h : Encloses tree k i) {node : ScopeNode}
    (hi : tree.nodes[i]? = some node) :
    k = i ∨ ∃ j, node.parent = some j ∧ j < i ∧ Encloses tree k j := by
  cases h with
  | self => exact Or.inl rfl
  | inner hnode hparent hlt outer =>
      rw [hi] at hnode
      cases hnode
      exact Or.inr ⟨_, hparent, hlt, outer⟩

/-- A name is bound in an enclosing scope, or not at all. -/
theorem encloses_of_binder? {name : String} {k : Nat} (h : tree.binder? i name = some k) :
    Encloses tree k i ∧ ∃ node, tree.nodes[k]? = some node ∧
      Table.contains name node.bindings = true := by
  induction stands tree i with
  | missing hi => simp [binder?_missing hi] at h
  | @outermost i node hi hparent =>
      by_cases hname : Table.contains name node.bindings = true
      · rw [binder?_self hi hname] at h
        cases h
        exact ⟨.self, node, hi, hname⟩
      · simp [binder?_outermost hi hparent hname] at h
  | @inner i j node hi hparent hlt _ ih =>
      by_cases hname : Table.contains name node.bindings = true
      · rw [binder?_self hi hname] at h
        cases h
        exact ⟨.self, node, hi, hname⟩
      · rw [binder?_inner hi hparent hlt hname] at h
        obtain ⟨houter, hbinds⟩ := ih h
        exact ⟨.inner hi hparent hlt houter, hbinds⟩

theorem Encloses.of_parents {k : Nat} (h : Encloses tree k i)
    (hparents : ∀ l ≤ i, (after.nodes[l]?).map (·.parent) = (tree.nodes[l]?).map (·.parent)) :
    Encloses after k i := by
  induction h with
  | self => exact .self
  | @inner i j node hnode hparent hlt _ ih =>
      have hsame := hparents i (Nat.le_refl _)
      rw [hnode, Option.map_some, Option.map_eq_some_iff] at hsame
      obtain ⟨kept, hkept, hkeeps⟩ := hsame
      exact .inner hkept (hkeeps.trans hparent) hlt (ih fun l hl => hparents l (by omega))

/-! ### Reading and changing -/

/-- A chain is made of scopes that are no younger, so it is the same where they are. -/
theorem chain_congr (h : ∀ k ≤ i, after.nodes[k]? = tree.nodes[k]?) :
    after.chain i = tree.chain i := by
  induction stands tree i with
  | missing hi => rw [chain_missing hi, chain_missing ((h _ (Nat.le_refl _)).trans hi)]
  | outermost hi hparent =>
      rw [chain_outermost hi hparent, chain_outermost ((h _ (Nat.le_refl _)).trans hi) hparent]
  | inner hi hparent hlt _ ih =>
      rw [chain_inner hi hparent hlt, chain_inner ((h _ (Nat.le_refl _)).trans hi) hparent hlt,
        ih fun k hk => h k (by omega)]

/-- The number of a name is that of the nearest binding. -/
theorem get_eq (tree : ScopeTree) (i : Nat) (name : String) : tree.get i name =
    match Scope.get? name (tree.chain i) with
    | some value => .ok value
    | none => .error (.unknownIdentifier name) := by
  have hnumber : ((tree.binder? i name).bind fun k => (tree.nodes[k]?).bind fun node =>
      Table.get? name node.bindings) = Scope.get? name (tree.chain i) := by
    induction stands tree i with
    | missing hi => simp [binder?_missing hi, chain_missing hi, Scope.get?]
    | @outermost i node hi hparent =>
        rw [chain_outermost hi hparent]
        by_cases hname : Table.contains name node.bindings = true
        · obtain ⟨value, hvalue⟩ := Option.isSome_iff_exists.mp hname
          simp [binder?_self hi hname, hi, Scope.get?, hvalue]
        · have hnone : Table.get? name node.bindings = none := by
            simpa [Table.contains] using hname
          simp [binder?_outermost hi hparent hname, Scope.get?, hnone]
    | @inner i j node hi hparent hlt _ ih =>
        rw [chain_inner hi hparent hlt]
        by_cases hname : Table.contains name node.bindings = true
        · obtain ⟨value, hvalue⟩ := Option.isSome_iff_exists.mp hname
          simp [binder?_self hi hname, hi, Scope.get?, hvalue]
        · have hnone : Table.get? name node.bindings = none := by
            simpa [Table.contains] using hname
          rw [binder?_inner hi hparent hlt hname, ih]
          simp [Scope.get?, hnone]
  unfold get
  cases hfound : Scope.get? name (tree.chain i) <;> simp only [hnumber, hfound]

theorem getElem?_define_self {node : ScopeNode} (h : tree.nodes[i]? = some node) (name : String)
    (value : Number) : (tree.define i name value).nodes[i]? =
      some { node with bindings := Table.insert name value node.bindings } := by
  simp [define, h]

theorem getElem?_define_of_ne (h : j ≠ i) (name : String) (value : Number) :
    (tree.define i name value).nodes[j]? = tree.nodes[j]? := by
  simp [define, Ne.symm h]

/-- A declaration in a scope is one at the front of its chain. -/
theorem chain_define {node : ScopeNode} (h : tree.nodes[i]? = some node) (name : String)
    (value : Number) :
    (tree.define i name value).chain i = Scope.define name value (tree.chain i) := by
  have hnode := getElem?_define_self h name value
  cases stands tree i with
  | missing hi => simp [hi] at h
  | outermost hi hparent =>
      rw [h] at hi
      cases hi
      rw [chain_outermost h hparent, chain_outermost hnode hparent, Scope.define]
  | inner hi hparent hlt _ =>
      rw [h] at hi
      cases hi
      rw [chain_inner h hparent hlt, chain_inner hnode hparent hlt, Scope.define]
      congr 1
      exact chain_congr fun k hk => getElem?_define_of_ne (by omega) name value

theorem set_of_binder?_none {name : String} (h : tree.binder? i name = none) (value : Number) :
    (tree.set i name value).1 = tree := by
  simp only [set, h]

theorem set_of_binder?_some {name : String} {k : Nat} (h : tree.binder? i name = some k)
    (value : Number) : (tree.set i name value).1 = tree.define k name value := by
  simp only [set, h]

/-- An assignment through a scope is one to the nearest binding in its chain. -/
theorem chain_set (tree : ScopeTree) (i : Nat) (name : String) (value : Number) :
    (tree.set i name value).1.chain i = Scope.set name value (tree.chain i) := by
  induction stands tree i with
  | missing hi =>
      rw [set_of_binder?_none (binder?_missing hi name), chain_missing hi, Scope.set]
  | @outermost i node hi hparent =>
      by_cases hname : Table.contains name node.bindings = true
      · rw [set_of_binder?_some (binder?_self hi hname), chain_define hi,
          chain_outermost hi hparent, Scope.define, Scope.set, if_pos hname]
      · rw [set_of_binder?_none (binder?_outermost hi hparent hname), chain_outermost hi hparent,
          Scope.set, if_neg hname, Scope.set]
  | @inner i j node hi hparent hlt _ ih =>
      by_cases hname : Table.contains name node.bindings = true
      · rw [set_of_binder?_some (binder?_self hi hname), chain_define hi,
          chain_inner hi hparent hlt, Scope.define, Scope.set, if_pos hname]
      · have hbinder := binder?_inner hi hparent hlt hname
        rw [chain_inner hi hparent hlt, Scope.set, if_neg hname, ← ih]
        cases hfound : tree.binder? j name with
        | none =>
            rw [set_of_binder?_none hfound, set_of_binder?_none (hbinder.trans hfound),
              chain_inner hi hparent hlt]
        | some k =>
            -- the scope that binds the name is older than the one inside it
            have hk := (encloses_of_binder? hfound).1.le
            have hsame : (tree.define k name value).nodes[i]? = some node := by
              rw [getElem?_define_of_ne (by omega), hi]
            rw [set_of_binder?_some hfound, set_of_binder?_some (hbinder.trans hfound),
              chain_inner hsame hparent hlt]

/-! ### New scopes -/

/-- A new scope with nothing around it, and its number. -/
def fresh (tree : ScopeTree) : ScopeTree × Nat :=
  (⟨tree.nodes ++ [{ parent := none, bindings := [] }]⟩, tree.nodes.length)

theorem getElem?_of_isPrefix (h : tree.nodes <+: after.nodes) {k : Nat}
    (hk : k < tree.nodes.length) : after.nodes[k]? = tree.nodes[k]? := by
  obtain ⟨more, hmore⟩ := h
  rw [← hmore, List.getElem?_append_left hk]

/-- More scopes behind those that are there change no chain of these. -/
theorem chain_of_isPrefix (h : tree.nodes <+: after.nodes) (hi : i < tree.nodes.length) :
    after.chain i = tree.chain i :=
  chain_congr fun _ hk => getElem?_of_isPrefix h (by omega)

theorem nodes_isPrefix_child (tree : ScopeTree) (i : Nat) :
    tree.nodes <+: (tree.child i).1.nodes :=
  List.prefix_append _ _

theorem nodes_isPrefix_fresh (tree : ScopeTree) : tree.nodes <+: tree.fresh.1.nodes :=
  List.prefix_append _ _

theorem getElem?_child_new (tree : ScopeTree) (i : Nat) :
    (tree.child i).1.nodes[tree.nodes.length]? = some { parent := some i, bindings := [] } := by
  simp [child]

theorem getElem?_fresh_new (tree : ScopeTree) :
    tree.fresh.1.nodes[tree.nodes.length]? = some { parent := none, bindings := [] } := by
  simp [fresh]

theorem chain_child (hi : i < tree.nodes.length) :
    (tree.child i).1.chain tree.nodes.length = Scope.child (tree.chain i) := by
  rw [chain_inner (tree.getElem?_child_new i) rfl hi,
    chain_of_isPrefix (tree.nodes_isPrefix_child i) hi, Scope.child]

theorem chain_fresh (tree : ScopeTree) : tree.fresh.1.chain tree.nodes.length = [[]] :=
  chain_outermost tree.getElem?_fresh_new fun _ h => nomatch h

/-! ### What a change touches -/

/-- What may be done through a scope: the scopes of the tree keep their places, those that do not
enclose it keep their bindings too, and others may be made behind them. -/
structure Touches (i : Nat) (tree after : ScopeTree) : Prop where
  length_le : tree.nodes.length ≤ after.nodes.length
  parent : ∀ k < tree.nodes.length,
    (after.nodes[k]?).map (·.parent) = (tree.nodes[k]?).map (·.parent)
  elsewhere : ∀ k < tree.nodes.length, ¬ tree.Encloses k i → after.nodes[k]? = tree.nodes[k]?

namespace Touches

theorem of_isPrefix (h : tree.nodes <+: after.nodes) (i : Nat) : Touches i tree after where
  length_le := h.length_le
  parent _ hk := by rw [getElem?_of_isPrefix h hk]
  elsewhere _ hk _ := getElem?_of_isPrefix h hk

theorem refl (i : Nat) (tree : ScopeTree) : Touches i tree tree :=
  of_isPrefix List.prefix_rfl i

theorem trans {middle : ScopeTree} (h : Touches i tree middle) (h' : Touches i middle after)
    (hi : i < tree.nodes.length) : Touches i tree after where
  length_le := Nat.le_trans h.length_le h'.length_le
  parent k hk := (h'.parent k (Nat.lt_of_lt_of_le hk h.length_le)).trans (h.parent k hk)
  elsewhere k hk hnot := by
    have hstill : ¬ middle.Encloses k i := fun hencloses =>
      hnot (hencloses.of_parents fun l hl => (h.parent l (by omega)).symm)
    rw [h'.elsewhere k (Nat.lt_of_lt_of_le hk h.length_le) hstill, h.elsewhere k hk hnot]

theorem define {k : Nat} (h : tree.Encloses k i) (name : String) (value : Number) :
    Touches i tree (tree.define k name value) where
  length_le := by simp [ScopeTree.define]
  parent l _ := by
    by_cases hl : l = k
    · subst hl
      cases hnode : tree.nodes[l]? with
      | none => simp [ScopeTree.define, hnode]
      | some node => rw [getElem?_define_self hnode]; rfl
    · rw [getElem?_define_of_ne hl]
  elsewhere l _ hnot := by
    rw [getElem?_define_of_ne fun hl => hnot (by rwa [hl])]

theorem set (tree : ScopeTree) (i : Nat) (name : String) (value : Number) :
    Touches i tree (tree.set i name value).1 := by
  unfold ScopeTree.set
  split
  · exact define (encloses_of_binder? ‹_›).1 name value
  · exact refl i tree

/-- What is done through a new scope inside another is done through the other. -/
theorem of_child (hi : i < tree.nodes.length)
    (h : Touches tree.nodes.length (tree.child i).1 after) : Touches i tree after := by
  have hfirst := tree.nodes_isPrefix_child i
  have hwider := hfirst.length_le
  refine ⟨Nat.le_trans hwider h.length_le, fun k hk => ?_, fun k hk hnot => ?_⟩
  · rw [h.parent k (Nat.lt_of_lt_of_le hk hwider), getElem?_of_isPrefix hfirst hk]
  · have hnotInner : ¬ (tree.child i).1.Encloses k tree.nodes.length := by
      intro hencloses
      obtain rfl | ⟨j, hj, -, houter⟩ := hencloses.eq_or_outer (tree.getElem?_child_new i)
      · omega
      · cases hj
        exact hnot (houter.of_parents fun l hl => by
          rw [getElem?_of_isPrefix hfirst (by omega : l < tree.nodes.length)])
    rw [h.elsewhere k (Nat.lt_of_lt_of_le hk hwider) hnotInner, getElem?_of_isPrefix hfirst hk]

/-- The scope around a new one is at the tail of its chain, whatever is done through the new one. -/
theorem chain_parent (hi : i < tree.nodes.length)
    (h : Touches tree.nodes.length (tree.child i).1 after) :
    after.chain i = (after.chain tree.nodes.length).parent := by
  have hsame := h.parent tree.nodes.length (by simp [child])
  rw [getElem?_child_new, Option.map_some, Option.map_eq_some_iff] at hsame
  obtain ⟨node, hnode, hparent⟩ := hsame
  rw [chain_inner hnode hparent hi, Scope.parent, List.tail_cons]

/-- What is done through a new scope with nothing around it changes no other scope. -/
theorem isPrefix_of_fresh (h : Touches tree.nodes.length tree.fresh.1 after) :
    tree.nodes <+: after.nodes := by
  have hfirst := tree.nodes_isPrefix_fresh
  have hwider := hfirst.length_le
  rw [List.prefix_iff_getElem?]
  intro k hk
  have hnot : ¬ tree.fresh.1.Encloses k tree.nodes.length := by
    intro hencloses
    obtain rfl | ⟨j, hj, -⟩ := hencloses.eq_or_outer tree.getElem?_fresh_new
    · omega
    · cases hj
  rw [h.elsewhere k (Nat.lt_of_lt_of_le hk hwider) hnot, getElem?_of_isPrefix hfirst hk,
    List.getElem?_eq_getElem hk]

end Touches

end ToyC.ScopeTree
