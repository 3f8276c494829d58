import ToyC.Number
import ToyC.Operator

/-!
Expressions, each node with the place where it starts in its text.
-/

namespace ToyC

/-- A place in a text; lines and columns count from one. -/
structure Position where
  line : Nat := 1
  column : Nat := 1
  deriving DecidableEq, Repr, Inhabited

def Position.after (pos : Position) (c : Char) : Position :=
  if c = '\n' then { line := pos.line + 1, column := 1 }
  else { pos with column := pos.column + 1 }

def Position.advance (pos : Position) (text : List Char) : Position :=
  text.foldl Position.after pos

/-- An expression. Parentheses and plus signs in front of an operand leave no node. -/
inductive Expr where
  | literal (pos : Position) (value : Value)
  | name (pos : Position) (ident : String)
  | unary (pos : Position) (op : UnaryOp) (operand : Expr)
  /-- the place is that of the operator -/
  | binary (pos : Position) (op : BinaryOp) (left right : Expr)
  | call (pos : Position) (func : String) (args : List Expr)
  /-- text that is no expression; it is worth zero -/
  | invalid (text : String)

instance : Inhabited Expr := ⟨.invalid ""⟩

end ToyC
