import ToyC.Syntax.Expr.Read
import ToyC.Syntax.Outline
import ToyC.Syntax.Stmt

/-!
Reading statements: from lines to their outline, and from the outline to
statements. Lines that write no statement, headers without an end and loop
headers without three clauses are left out.
-/

namespace ToyC

def ArithOp.ofSign? : Char → Option ArithOp
  | '+' => some .add
  | '-' => some .sub
  | '*' => some .mul
  | '/' => some .div
  | '%' => some .rem
  | _ => none

def ChangeShape.change? : ChangeShape → Option Change
  | .set value => some (.set (Expr.read value))
  | .update sign value => (ArithOp.ofSign? sign).map (.update · (Expr.read value))
  | .increment => some .increment
  | .decrement => some .decrement

def Shape.deed? : Shape → Option Deed
  | .returns value => some (.returns (value.map Expr.read))
  | .prints fmt args => some (.prints (String.ofList fmt) (args.map Expr.read))
  | .declares type declarators =>
    some (.declares (String.ofList type) (declarators.map fun (name, value) =>
      { name := String.ofList name, value := value.map Expr.read }))
  | .assigns target change => change.change?.map (.assigns (String.ofList target))
  | .evaluates call => some (.evaluates (Expr.read call))
  | .breaks => some .breaks
  | .continues => some .continues
  | .unrecognised _ => none

/-- The statement without statements inside that a line writes. -/
def Simple.read? (line : List Char) : Option Simple :=
  (Shape.read line).deed?.map fun deed => { src := String.ofList line, deed }

structure Clauses where
  start : List Char
  condition : List Char
  next : List Char

/-- The three clauses of a loop header, any of which may be empty. -/
def Clauses.read? (header : List Char) : Option Clauses :=
  match Source.splitParts ';' header with
  | [start, condition, next] => some { start, condition, next }
  | _ => none

def optional {α : Type} (read : List Char → Option α) (clause : List Char) : Option α :=
  if clause.isEmpty then none else read clause

namespace Outline

mutual

def stmt? : Outline → Option Stmt
  | .single text => (Simple.read? text).map .simple
  | .block body => some (.block "\x7b" (stmts body))
  | .branch src header yes no =>
    some (.branch (String.ofList src) (Expr.read header) (stmts yes) (otherStmts no))
  | .whileLoop src header body =>
    some (.whileLoop (String.ofList src) (Expr.read header) (stmts body))
  | .forLoop src header body =>
    let inside := stmts body
    (Clauses.read? header).map fun clauses =>
      .forLoop (String.ofList src) (optional Simple.read? clauses.start)
        (optional (some ∘ Expr.read) clauses.condition) (optional Simple.read? clauses.next) inside
  | .unclosed .. => none

def stmts : List Outline → List Stmt
  | [] => []
  | outline :: rest => (stmt? outline).toList ++ stmts rest

def otherStmts : Option (List Outline) → Option (List Stmt)
  | none => none
  | some body => some (stmts body)

end

end Outline

def readBlock (lines : List (List Char)) : List Stmt :=
  Outline.stmts (Outline.lines lines)

end ToyC
