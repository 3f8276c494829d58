import ToyC.Failure
import ToyC.Run.Scope

/-!
Trees of scopes that live side by side. Each scope but the first has a parent, so a
chain of bindings leads from every scope to the root. What is changed through one
scope is seen from all that share it. As along a single chain, the stack for a search
up to the root is taken as unlimited.
-/

namespace ToyC

structure ScopeNode where
  parent : Option Nat
  bindings : Bindings

/-- Scopes by number, in the order in which they were made. A parent is made before its
children. -/
structure ScopeTree where
  nodes : List ScopeNode

namespace ScopeTree

def root : ScopeTree :=
  ⟨[{ parent := none, bindings := [] }]⟩

def child (i : Nat) (tree : ScopeTree) : ScopeTree × Nat :=
  (⟨tree.nodes ++ [{ parent := some i, bindings := [] }]⟩, tree.nodes.length)

def define (i : Nat) (name : String) (value : Number) (tree : ScopeTree) : ScopeTree :=
  ⟨tree.nodes.modify i fun node =>
    { node with bindings := Table.insert name value node.bindings }⟩

/-- The scope, from a given one to the root, that binds a name first. A parent that is not older
than its child counts as none. -/
def binder? (tree : ScopeTree) (i : Nat) (name : String) : Option Nat :=
  match tree.nodes[i]? with
  | none => none
  | some node =>
    if Table.contains name node.bindings then some i
    else
      match node.parent with
      | none => none
      | some j => if j < i then binder? tree j name else none
termination_by i

def has (tree : ScopeTree) (i : Nat) (name : String) : Bool :=
  (tree.binder? i name).isSome

def get (tree : ScopeTree) (i : Nat) (name : String) : Except EvalError Number :=
  match (tree.binder? i name).bind fun j =>
    (tree.nodes[j]?).bind fun node => Table.get? name node.bindings with
  | some value => .ok value
  | none => .error (.unknownIdentifier name)

/-- Change the nearest binding of a name, and whether there is one. -/
def set (i : Nat) (name : String) (value : Number) (tree : ScopeTree) : ScopeTree × Bool :=
  match tree.binder? i name with
  | some j => (tree.define j name value, true)
  | none => (tree, false)

def chain (tree : ScopeTree) (i : Nat) : Scope :=
  match tree.nodes[i]? with
  | none => []
  | some node =>
    match node.parent with
    | none => [node.bindings]
    | some j => if j < i then node.bindings :: chain tree j else [node.bindings]
termination_by i

end ScopeTree

end ToyC
