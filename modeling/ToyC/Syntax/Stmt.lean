import ToyC.Syntax.Expr

/-!
Statements. Each keeps the logical line that it was read from. The statements
that hold no others can also be clauses of a loop header.
-/

namespace ToyC

inductive Change where
  | set (value : Expr)
  | update (op : ArithOp) (value : Expr)
  | increment
  | decrement

def Change.symbol : Change → String
  | .set _ => "="
  | .update op _ => op.symbol ++ "="
  | .increment => "++"
  | .decrement => "--"

def Change.value? : Change → Option Expr
  | .set value | .update _ value => some value
  | .increment | .decrement => none

structure Declarator where
  name : String
  value : Option Expr

/-- What a statement without statements inside does. -/
inductive Deed where
  | returns (value : Option Expr)
  | prints (fmt : String) (args : List Expr)
  | declares (type : String) (declarators : List Declarator)
  | assigns (target : String) (change : Change)
  | evaluates (value : Expr)
  | breaks
  | continues

structure Simple where
  src : String
  deed : Deed

inductive Stmt where
  | simple (s : Simple)
  | branch (src : String) (condition : Expr) (yes : List Stmt) (no : Option (List Stmt))
  | whileLoop (src : String) (condition : Expr) (body : List Stmt)
  | forLoop (src : String) (start : Option Simple) (condition : Option Expr)
      (next : Option Simple) (body : List Stmt)
  | block (src : String) (body : List Stmt)

/-- The logical line that a statement was read from. -/
def Stmt.src : Stmt → String
  | .simple s => s.src
  | .branch src .. | .whileLoop src .. | .forLoop src .. | .block src _ => src

end ToyC
