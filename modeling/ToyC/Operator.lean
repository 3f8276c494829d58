/-!
The operators of expressions: their spelling and how tightly they bind. All of
them group to the left.
-/

namespace ToyC

inductive ArithOp where
  | add
  | sub
  | mul
  | div
  | rem
  deriving DecidableEq, Repr

inductive Comparison where
  | eq
  | ne
  | lt
  | le
  | gt
  | ge
  deriving DecidableEq, Repr

inductive BinaryOp where
  | or
  | and
  | compare (test : Comparison)
  | arith (op : ArithOp)
  deriving DecidableEq, Repr

/-- Operators in front of an operand that leave a node in the tree. -/
inductive UnaryOp where
  | neg
  | not
  deriving DecidableEq, Repr

def ArithOp.symbol : ArithOp → String
  | .add => "+"
  | .sub => "-"
  | .mul => "*"
  | .div => "/"
  | .rem => "%"

def Comparison.symbol : Comparison → String
  | .eq => "=="
  | .ne => "!="
  | .lt => "<"
  | .le => "<="
  | .gt => ">"
  | .ge => ">="

def BinaryOp.symbol : BinaryOp → String
  | .or => "||"
  | .and => "&&"
  | .compare test => test.symbol
  | .arith op => op.symbol

def UnaryOp.symbol : UnaryOp → String
  | .neg => "-"
  | .not => "!"

/-- How tightly an operator binds; a larger level binds tighter. -/
def BinaryOp.level : BinaryOp → Nat
  | .or => 1
  | .and => 2
  | .compare .eq | .compare .ne => 3
  | .compare _ => 4
  | .arith .add | .arith .sub => 5
  | .arith _ => 6

def BinaryOp.all : List BinaryOp :=
  [.or, .and, .compare .eq, .compare .ne, .compare .lt, .compare .le, .compare .gt, .compare .ge,
    .arith .add, .arith .sub, .arith .mul, .arith .div, .arith .rem]

def BinaryOp.ofSymbol? (symbol : String) : Option BinaryOp :=
  BinaryOp.all.find? (·.symbol == symbol)

end ToyC
