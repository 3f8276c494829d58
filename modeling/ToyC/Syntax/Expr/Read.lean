import ToyC.Syntax.Token
import ToyC.Text.Quoted

/-!
Reading expressions by operator precedence. The tokens are taken one by one. What
has been read but not yet joined lies on a stack of frames: a left operand with
its operator, a sign in front of an operand, an open parenthesis, an open call.
An operator first joins the frames that bind at least as tightly, so operators of
one level group to the left.

A reader that recurses over the levels of precedence takes a piece of its stack for
each frame that is open, and gives a text up when the stack is exhausted. How much of
the stack is left to it depends on its callers: on the nesting of the statement that
the text stands in, and on the host. Here the depth is bounded by a constant below
what ordinary callers leave, so a text is given up that nests beyond it, also where a
host with a longer stack would take it.
-/

namespace ToyC

/-- Something that waits for an operand. -/
inductive Frame where
  | unary (pos : Position) (op : UnaryOp)
  /-- a plus sign in front of an operand, which leaves no node -/
  | plus
  | left (operand : Expr) (pos : Position) (op : BinaryOp)
  | paren
  /-- a call and its arguments so far -/
  | call (pos : Position) (func : String) (args : List Expr)

/-- What a frame takes from the depth that may be nested. A parenthesis passes through every
level of precedence, two steps each; a sign and a right operand take one step. -/
def Frame.cost : Frame → Nat
  | .unary .. | .plus | .left .. => 1
  | .paren => 12
  | .call .. => 14

/-- The depth that may be nested. Of a stack of a thousand steps a hundred are left to the callers
and to the innermost operand. -/
def maxNesting : Nat := 900

def nesting : (stack : List Frame) → Nat
  | [] => 0
  | frame :: stack => frame.cost + nesting stack

inductive ReadState where
  /-- an operand must follow -/
  | operand (stack : List Frame)
  /-- a name was read: a parenthesis would make it a call -/
  | named (stack : List Frame) (pos : Position) (ident : String)
  /-- an operand ended -/
  | operator (stack : List Frame) (left : Expr)

inductive Rejection where
  | malformed
  | badLiteral (cause : LiteralError)
  | tooDeep
  deriving DecidableEq, Repr

/-- Join an operand with the frames on top of the stack that bind at least as tightly as a
level, down to the nearest open parenthesis or call. -/
def join (level : Nat) : List Frame → Expr → List Frame × Expr
  | .unary pos op :: stack, e => join level stack (.unary pos op e)
  | .plus :: stack, e => join level stack e
  | .left operand pos op :: stack, e =>
    if level ≤ op.level then join level stack (.binary pos op operand e)
    else (.left operand pos op :: stack, e)
  | stack, e => (stack, e)

namespace ReadState

def push (frame : Frame) (stack : List Frame) : Except Rejection ReadState :=
  if maxNesting < nesting (frame :: stack) then .error .tooDeep
  else .ok (.operand (frame :: stack))

/-- The state after a token where an operand must follow. A call may be closed at once. -/
def stepOperand (stack : List Frame) (lexeme : Lexeme) : Except Rejection ReadState :=
  match lexeme.token with
  | .literal value => .ok (.operator stack (.literal lexeme.pos value))
  -- the reading goes on: a text that is malformed further on is rejected for that
  | .unusable _ => .ok (.operator stack (.literal lexeme.pos (.number 0)))
  | .name ident => .ok (.named stack lexeme.pos ident)
  | .operator (.arith .sub) => push (.unary lexeme.pos .neg) stack
  | .operator (.arith .add) => push .plus stack
  | .bang => push (.unary lexeme.pos .not) stack
  | .leftParen => push .paren stack
  | .rightParen =>
    match stack with
    | .call pos func [] :: below => .ok (.operator below (.call pos func []))
    | _ => .error .malformed
  | _ => .error .malformed

def stepOperator (stack : List Frame) (left : Expr) (lexeme : Lexeme) :
    Except Rejection ReadState :=
  match lexeme.token with
  | .operator op =>
    let (stack, left) := join op.level stack left
    push (.left left lexeme.pos op) stack
  | .rightParen =>
    match join 0 stack left with
    | (.paren :: below, e) => .ok (.operator below e)
    | (.call pos func args :: below, e) => .ok (.operator below (.call pos func (args ++ [e])))
    | _ => .error .malformed
  | .comma =>
    match join 0 stack left with
    | (.call pos func args :: below, e) => .ok (.operand (.call pos func (args ++ [e]) :: below))
    | _ => .error .malformed
  | _ => .error .malformed

def step : ReadState → Lexeme → Except Rejection ReadState
  | .operand stack, lexeme => stepOperand stack lexeme
  | .named stack pos ident, lexeme =>
    match lexeme.token with
    | .leftParen => push (.call pos ident []) stack
    | _ => stepOperator stack (.name pos ident) lexeme
  | .operator stack left, lexeme => stepOperator stack left lexeme

def finish : ReadState → Except Rejection Expr
  | .operand _ => .error .malformed
  | .named stack pos ident => close stack (.name pos ident)
  | .operator stack left => close stack left
where
  close (stack : List Frame) (left : Expr) : Except Rejection Expr :=
    match join 0 stack left with
    | ([], e) => .ok e
    | _ => .error .malformed

end ReadState

def literalErrors (lexemes : List Lexeme) : List LiteralError :=
  lexemes.filterMap fun lexeme =>
    match lexeme.token with
    | .unusable cause => some cause
    | _ => none

namespace Expr

def ofLexemes (lexemes : List Lexeme) : Except Rejection Expr := do
  let state ← lexemes.foldlM ReadState.step (.operand [])
  let e ← state.finish
  match literalErrors lexemes with
  | [] => return e
  | cause :: _ => throw (.badLiteral cause)

def parse (text : List Char) : Except Rejection Expr :=
  match lexemes? {} text with
  | none => .error .malformed
  | some lexemes => ofLexemes lexemes

/-- The expression that a text writes; one that writes none is kept as it is. -/
def read (text : List Char) : Expr :=
  match parse text with
  | .ok e => e
  | .error _ => .invalid (String.ofList text)

end Expr

end ToyC
