import ToyC.Syntax.Expr.Read
import ToyC.Proofs.Syntax.Spacing

/-!
Writing expressions. The tokens of an expression depend on the level of its place:
an operator that binds more loosely than the place allows stands in parentheses,
and no other operand does. A left operand may bind as loosely as its operator, a
right operand must bind tighter, so operators of one level group to the left.
-/

namespace ToyC

/-- The token that writes an operator in front of an operand. -/
def UnaryOp.token : UnaryOp → Token
  | .neg => .operator (.arith .sub)
  | .not => .bang

/-- The level of a place that only a closed operand or a sign may take. -/
def operandLevel : Nat := 7

namespace Expr

mutual

/-- The expression with its places forgotten. -/
def unplaced : Expr → Expr
  | .literal _ value => .literal {} value
  | .name _ ident => .name {} ident
  | .unary _ op operand => .unary {} op operand.unplaced
  | .binary _ op left right => .binary {} op left.unplaced right.unplaced
  | .call _ func args => .call {} func (allUnplaced args)
  | .invalid text => .invalid text

def allUnplaced : List Expr → List Expr
  | [] => []
  | e :: rest => e.unplaced :: allUnplaced rest

end

mutual

/-- The tokens of an expression at a place of the given level. -/
def tokens (level : Nat) : Expr → List Token
  | .literal _ value => [.literal value]
  | .name _ ident => [.name ident]
  | .unary _ op operand => op.token :: tokens operandLevel operand
  | .binary _ op left right =>
    let plain := tokens op.level left ++ .operator op :: tokens (op.level + 1) right
    if op.level < level then .leftParen :: (plain ++ [.rightParen]) else plain
  | .call _ func args => .name func :: .leftParen :: argTokens args
  | .invalid _ => []

/-- The tokens of arguments, with the parenthesis that ends the call. -/
def argTokens : List Expr → List Token
  | [] => [.rightParen]
  | e :: rest => tokens 0 e ++ nextTokens rest

def nextTokens : List Expr → List Token
  | [] => [.rightParen]
  | e :: rest => .comma :: (tokens 0 e ++ nextTokens rest)

end

mutual

/-- How deep a reader nests in the tokens of an expression. -/
def depth (level : Nat) : Expr → Nat
  | .literal .. | .name .. | .invalid _ => 0
  | .unary pos op operand => Frame.cost (.unary pos op) + depth operandLevel operand
  | .binary pos op left right =>
    (if op.level < level then Frame.cost .paren else 0) +
      max (depth op.level left) (Frame.cost (.left left pos op) + depth (op.level + 1) right)
  | .call pos func args => Frame.cost (.call pos func []) + argDepth args

def argDepth : List Expr → Nat
  | [] => 0
  | e :: rest => max (depth 0 e) (argDepth rest)

end

/-- The expressions that have a spelling: integers that are not negative and have digits enough
to be read, names in ASCII, texts, signs, operators and calls. -/
inductive Writable : Expr → Prop
  | number (pos : Position) {n : Int} (hnonneg : 0 ≤ n)
      (hsize : (Decimal.digits n.toNat).length ≤ maxDigits) :
      Writable (.literal pos (.number (.int n)))
  | text (pos : Position) (s : String) : Writable (.literal pos (.text s))
  | name (pos : Position) {ident : String} (hident : Token.isName ident.toList = true) :
      Writable (.name pos ident)
  | unary (pos : Position) (op : UnaryOp) {operand : Expr} (hoperand : Writable operand) :
      Writable (.unary pos op operand)
  | binary (pos : Position) (op : BinaryOp) {left right : Expr} (hleft : Writable left)
      (hright : Writable right) : Writable (.binary pos op left right)
  | call (pos : Position) {func : String} {args : List Expr}
      (hfunc : Token.isName func.toList = true) (hargs : ∀ arg ∈ args, Writable arg) :
      Writable (.call pos func args)

/-! ### Tokens in order -/

open Token (Flow)

theorem nextTokens_flow {args : List Expr}
    (h : ∀ arg ∈ args, Flow false (tokens 0 arg) true) : Flow true (nextTokens args) true := by
  induction args with
  | nil => exact Flow.cons trivial rfl (Flow.nil true)
  | cons e rest ih =>
      have hrest := ih fun arg harg => h arg (List.mem_cons_of_mem _ harg)
      exact Flow.cons trivial rfl ((h e List.mem_cons_self).append hrest)

theorem argTokens_flow {args : List Expr}
    (h : ∀ arg ∈ args, Flow false (tokens 0 arg) true) : Flow false (argTokens args) true := by
  cases args with
  | nil => exact Flow.cons trivial rfl (Flow.nil true)
  | cons e rest =>
      have hrest := nextTokens_flow fun arg harg => h arg (List.mem_cons_of_mem _ harg)
      exact (h e List.mem_cons_self).append hrest

/-- The tokens of an expression take the place of one operand. -/
theorem Writable.flow {e : Expr} (h : e.Writable) (level : Nat) :
    Flow false (e.tokens level) true := by
  induction h generalizing level with
  | number pos hnonneg hsize => exact Flow.single ⟨hnonneg, hsize⟩ rfl rfl
  | text pos s => exact Flow.single trivial rfl rfl
  | name pos hident => exact Flow.single hident rfl rfl
  | unary pos op hoperand ih =>
      have hoperand := ih operandLevel
      cases op with
      | neg => exact Flow.cons trivial rfl hoperand
      | not => exact Flow.cons trivial rfl hoperand
  | binary pos op hleft hright ihleft ihright =>
      have hright : Flow true (.operator op :: tokens (op.level + 1) _) true :=
        Flow.cons trivial rfl (ihright (op.level + 1))
      have hplain := (ihleft op.level).append hright
      rw [tokens]
      split
      · have hclose : Flow true [.rightParen] true := Flow.cons trivial rfl (Flow.nil true)
        exact Flow.cons trivial rfl (hplain.append hclose)
      · exact hplain
  | call pos hfunc hargs ih =>
      have hopen := argTokens_flow fun arg harg => ih arg harg 0
      exact Flow.cons hfunc rfl (Flow.cons trivial rfl hopen)

theorem Writable.tokens_ne_nil {e : Expr} (h : e.Writable) (level : Nat) :
    e.tokens level ≠ [] := by
  intro hnil
  have hflow := h.flow level
  rw [hnil] at hflow
  cases hflow

end Expr

end ToyC
