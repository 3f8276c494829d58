import ToyC.Proofs.Syntax.Lexicon
import ToyC.Proofs.Syntax.Reading

/-!
Which tokens write an expression, with any parentheses and plus signs that are not
needed, and that a reader accepts nothing else. The reader's stack is accounted for
frame by frame: each frame stands for the tokens that opened it, a left operand
binds as its operator demands, and no frame lies on one that binds tighter. One
token extends the account, so at the end all tokens write the expression.
-/

namespace ToyC

namespace Expr

mutual

/-- Tokens that write an expression at a place of a level. Any operand may stand in parentheses
or behind a plus sign. A node has the place of its first token, a binary one that of its
operator. -/
inductive Renders : Nat → Expr → List Lexeme → Prop
  | literal {level : Nat} (pos : Position) (value : Value) :
      Renders level (.literal pos value) [⟨.literal value, pos⟩]
  | name {level : Nat} (pos : Position) (ident : String) :
      Renders level (.name pos ident) [⟨.name ident, pos⟩]
  | unary {level : Nat} (pos : Position) (op : UnaryOp) {operand : Expr} {lexemes : List Lexeme}
      (hoperand : Renders operandLevel operand lexemes) :
      Renders level (.unary pos op operand) (⟨op.token, pos⟩ :: lexemes)
  | plus {level : Nat} (pos : Position) {e : Expr} {lexemes : List Lexeme}
      (hoperand : Renders operandLevel e lexemes) :
      Renders level e (⟨.operator (.arith .add), pos⟩ :: lexemes)
  | paren {level : Nat} (first last : Position) {e : Expr} {lexemes : List Lexeme}
      (h : Renders 0 e lexemes) :
      Renders level e (⟨.leftParen, first⟩ :: (lexemes ++ [⟨.rightParen, last⟩]))
  | binary {level : Nat} (pos : Position) {op : BinaryOp} {left right : Expr}
      {front back : List Lexeme} (hlevel : level ≤ op.level) (hleft : Renders op.level left front)
      (hright : Renders (op.level + 1) right back) :
      Renders level (.binary pos op left right) (front ++ ⟨.operator op, pos⟩ :: back)
  | callNothing {level : Nat} (pos first last : Position) (func : String) :
      Renders level (.call pos func [])
        [⟨.name func, pos⟩, ⟨.leftParen, first⟩, ⟨.rightParen, last⟩]
  | call {level : Nat} (pos first last : Position) (func : String) {args : List Expr} {arg : Expr}
      {front back : List Lexeme} (hargs : RendersArgs args front) (harg : Renders 0 arg back) :
      Renders level (.call pos func (args ++ [arg]))
        (⟨.name func, pos⟩ :: ⟨.leftParen, first⟩ :: (front ++ back ++ [⟨.rightParen, last⟩]))

/-- Tokens that write arguments, each with a comma behind it. -/
inductive RendersArgs : List Expr → List Lexeme → Prop
  | nil : RendersArgs [] []
  | snoc (pos : Position) {args : List Expr} {arg : Expr} {front back : List Lexeme}
      (hargs : RendersArgs args front) (harg : Renders 0 arg back) :
      RendersArgs (args ++ [arg]) (front ++ back ++ [⟨.comma, pos⟩])

end

/-- A text writes an expression: it divides into tokens that write it. -/
def WrittenBy (e : Expr) (text : List Char) : Prop :=
  ∃ lexemes, Divides [] text lexemes ∧ Renders 0 e lexemes

/-- What stands at a place of some level may stand at any place of a lower one. -/
theorem Renders.lower {tight level : Nat} {e : Expr} {lexemes : List Lexeme}
    (h : Renders tight e lexemes) (hle : level ≤ tight) : Renders level e lexemes := by
  cases h with
  | literal pos value => exact .literal pos value
  | name pos ident => exact .name pos ident
  | unary pos op hoperand => exact .unary pos op hoperand
  | plus pos hoperand => exact .plus pos hoperand
  | paren first last h => exact .paren first last h
  | binary pos hlevel hleft hright => exact .binary pos (Nat.le_trans hle hlevel) hleft hright
  | callNothing pos first last func => exact .callNothing pos first last func
  | call pos first last func hargs harg => exact .call pos first last func hargs harg

/-! ### The account of a stack -/

/-- The level of the place that the top of a stack leaves open. -/
def openLevel : List Frame → Nat
  | .unary .. :: _ | .plus :: _ => operandLevel
  | .left _ _ op :: _ => op.level + 1
  | _ => 0

/-- The tokens that a stack stands for. -/
inductive Stands : List Frame → List Lexeme → Prop
  | nil : Stands [] []
  | unary (pos : Position) (op : UnaryOp) {stack : List Frame} {read : List Lexeme}
      (h : Stands stack read) : Stands (.unary pos op :: stack) (read ++ [⟨op.token, pos⟩])
  | plus (pos : Position) {stack : List Frame} {read : List Lexeme} (h : Stands stack read) :
      Stands (.plus :: stack) (read ++ [⟨.operator (.arith .add), pos⟩])
  | left (pos : Position) {op : BinaryOp} {operand : Expr} {stack : List Frame}
      {read more : List Lexeme} (h : Stands stack read) (hlevel : openLevel stack ≤ op.level)
      (hoperand : Renders op.level operand more) :
      Stands (.left operand pos op :: stack) (read ++ more ++ [⟨.operator op, pos⟩])
  | paren (pos : Position) {stack : List Frame} {read : List Lexeme} (h : Stands stack read) :
      Stands (.paren :: stack) (read ++ [⟨.leftParen, pos⟩])
  | call (pos first : Position) (func : String) {args : List Expr} {stack : List Frame}
      {read more : List Lexeme} (h : Stands stack read) (hargs : RendersArgs args more) :
      Stands (.call pos func args :: stack)
        (read ++ ⟨.name func, pos⟩ :: ⟨.leftParen, first⟩ :: more)

/-- The tokens that have been read in a state. An operand that ended can stand at any place. -/
def Accounts (read : List Lexeme) : ReadState → Prop
  | .operand stack => Stands stack read
  | .named stack pos ident => ∃ before, read = before ++ [⟨.name ident, pos⟩] ∧ Stands stack before
  | .operator stack left =>
    ∃ before more, read = before ++ more ∧ Stands stack before ∧ Renders operandLevel left more

/-- Nothing that joining leaves on top binds as tightly as its level. -/
theorem openLevel_join (level : Nat) (stack : List Frame) (e : Expr) :
    openLevel (join level stack e).1 ≤ level := by
  fun_induction join level stack e with
  | case1 => assumption
  | case2 => assumption
  | case3 => assumption
  | case4 operand pos op stack e h => simp [openLevel]; omega
  | case5 stack e hunary hplus hleft =>
      cases stack with
      | nil => exact Nat.zero_le _
      | cons frame stack =>
          cases frame with
          | unary pos op => exact absurd rfl (hunary pos op stack)
          | plus => exact absurd rfl (hplus stack)
          | left operand pos op => exact absurd rfl (hleft operand pos op stack)
          | paren => exact Nat.zero_le _
          | call pos func args => exact Nat.zero_le _

/-- Joining keeps the account: the same tokens, with the joined operand in place of those that
it took from the stack. -/
theorem Stands.join {stack : List Frame} {before : List Lexeme} (h : Stands stack before)
    {e : Expr} {more : List Lexeme} {tight level : Nat} (he : Renders tight e more)
    (htight : level ≤ tight) (hopen : openLevel stack ≤ tight) :
    ∃ below above, before ++ more = below ++ above ∧ Stands (join level stack e).1 below ∧
      Renders level (join level stack e).2 above := by
  induction h generalizing e more tight with
  | nil => exact ⟨[], more, rfl, .nil, he.lower htight⟩
  | @unary pos op stack read h ih =>
      -- A sign stands at a place of any level, so the level chosen only has to be high enough.
      have hsigned : Renders (max level (openLevel stack)) (.unary pos op e)
          (⟨op.token, pos⟩ :: more) := .unary pos op (he.lower hopen)
      obtain ⟨below, above, heq, hbelow, habove⟩ :=
        ih hsigned (Nat.le_max_left _ _) (Nat.le_max_right _ _)
      refine ⟨below, above, ?_, hbelow, habove⟩
      rw [← heq, List.append_assoc]
      rfl
  | @plus pos stack read h ih =>
      have hsigned : Renders (max level (openLevel stack)) e
          (⟨.operator (.arith .add), pos⟩ :: more) := .plus pos (he.lower hopen)
      obtain ⟨below, above, heq, hbelow, habove⟩ :=
        ih hsigned (Nat.le_max_left _ _) (Nat.le_max_right _ _)
      refine ⟨below, above, ?_, hbelow, habove⟩
      rw [← heq, List.append_assoc]
      rfl
  | @left pos op operand stack read front h hlevel hoperand ih =>
      rw [ToyC.join]
      split
      · rename_i hjoins
        have hright : Renders (op.level + 1) e more := he.lower hopen
        obtain ⟨below, above, heq, hbelow, habove⟩ :=
          ih (.binary pos (Nat.le_refl _) hoperand hright) hjoins hlevel
        refine ⟨below, above, ?_, hbelow, habove⟩
        rw [← heq]
        simp
      · exact ⟨_, more, rfl, .left pos h hlevel hoperand, he.lower htight⟩
  | paren pos h => exact ⟨_, more, rfl, .paren pos h, he.lower htight⟩
  | call pos first func h hargs =>
      exact ⟨_, more, rfl, .call pos first func h hargs, he.lower htight⟩

theorem openLevel_le (stack : List Frame) : openLevel stack ≤ operandLevel := by
  unfold openLevel
  split
  · exact Nat.le_refl _
  · exact Nat.le_refl _
  · exact Nat.succ_le_succ (level_le_six _)
  · exact Nat.zero_le _

/-! ### One token -/

open ReadState

theorem Accounts.push {frame : Frame} {stack : List Frame} {next : ReadState}
    {read : List Lexeme} (h : push frame stack = .ok next)
    (hstands : Stands (frame :: stack) read) : Accounts read next := by
  rw [ReadState.push] at h
  split at h
  · cases h
  · cases h
    exact hstands

theorem Accounts.stepOperand {stack : List Frame} {lexeme : Lexeme} {next : ReadState}
    {read : List Lexeme} (hstands : Stands stack read) (husable : lexeme.token.IsUsable)
    (h : stepOperand stack lexeme = .ok next) : Accounts (read ++ [lexeme]) next := by
  obtain ⟨token, pos⟩ := lexeme
  unfold ReadState.stepOperand at h
  split at h
  case h_1 value htoken =>
    cases htoken
    cases h
    exact ⟨read, _, rfl, hstands, .literal pos value⟩
  case h_2 cause htoken => exact absurd htoken (husable cause)
  case h_3 ident htoken =>
    cases htoken
    cases h
    exact ⟨read, rfl, hstands⟩
  case h_4 htoken =>
    cases htoken
    exact .push h (.unary pos .neg hstands)
  case h_5 htoken =>
    cases htoken
    exact .push h (.plus pos hstands)
  case h_6 htoken =>
    cases htoken
    exact .push h (.unary pos .not hstands)
  case h_7 htoken =>
    cases htoken
    exact .push h (.paren pos hstands)
  case h_8 htoken =>
    cases htoken
    split at h
    · rename_i at_ func below
      cases h
      cases hstands with
      | @call _ first _ _ _ before more hbelow hargs =>
          refine ⟨before, _, ?_, hbelow, .callNothing at_ first pos func⟩
          generalize hnone : ([] : List Expr) = args at hargs
          cases hargs with
          | nil => simp
          | snoc => simp at hnone
    · cases h
  case h_9 => cases h

theorem Accounts.stepOperator {stack : List Frame} {left : Expr} {lexeme : Lexeme}
    {next : ReadState} {before more : List Lexeme} (hstands : Stands stack before)
    (hleft : Renders operandLevel left more) (h : stepOperator stack left lexeme = .ok next) :
    Accounts (before ++ more ++ [lexeme]) next := by
  obtain ⟨token, pos⟩ := lexeme
  have hjoin : ∀ level, level ≤ operandLevel →
      ∃ below above, before ++ more = below ++ above ∧ Stands (join level stack left).1 below ∧
        Renders level (join level stack left).2 above :=
    fun level hlevel => hstands.join hleft hlevel (openLevel_le stack)
  unfold ReadState.stepOperator at h
  split at h
  case h_1 op htoken =>
    cases htoken
    have hlevel : op.level ≤ operandLevel := Nat.le_succ_of_le (level_le_six op)
    obtain ⟨below, above, heq, hbelow, habove⟩ := hjoin op.level hlevel
    rw [heq]
    exact .push h (.left pos hbelow (openLevel_join _ _ _) habove)
  case h_2 htoken =>
    cases htoken
    obtain ⟨below, above, heq, hbelow, habove⟩ := hjoin 0 (Nat.zero_le _)
    rw [heq]
    split at h
    · rename_i hstack
      rw [hstack] at hbelow habove
      cases h
      cases hbelow with
      | @paren first _ read hread =>
          refine ⟨read, _, ?_, hread, .paren first pos habove⟩
          simp
    · rename_i at_ func args _ e hstack
      rw [hstack] at hbelow habove
      cases h
      cases hbelow with
      | @call _ first _ _ _ read front hread hargs =>
          refine ⟨read, _, ?_, hread, .call at_ first pos func hargs habove⟩
          simp
    · cases h
  case h_3 htoken =>
    cases htoken
    obtain ⟨below, above, heq, hbelow, habove⟩ := hjoin 0 (Nat.zero_le _)
    rw [heq]
    split at h
    · rename_i at_ func args _ e hstack
      rw [hstack] at hbelow habove
      cases h
      cases hbelow with
      | @call _ first _ _ _ read front hread hargs =>
          have hcall := Stands.call at_ first func hread (.snoc pos hargs habove)
          change Stands _ _
          simpa using hcall
    · cases h
  case h_4 => cases h

/-- One token more is accounted for by the state after it. -/
theorem Accounts.step {state next : ReadState} {lexeme : Lexeme} {read : List Lexeme}
    (hstate : Accounts read state) (husable : lexeme.token.IsUsable)
    (h : state.step lexeme = .ok next) : Accounts (read ++ [lexeme]) next := by
  cases state with
  | operand stack => exact .stepOperand hstate husable h
  | operator stack left =>
      obtain ⟨before, more, rfl, hstands, hleft⟩ := hstate
      exact .stepOperator hstands hleft h
  | named stack pos ident =>
      obtain ⟨before, rfl, hstands⟩ := hstate
      rw [ReadState.step] at h
      split at h
      · rename_i htoken
        have hcall := Stands.call pos lexeme.pos ident hstands .nil
        rw [← htoken] at hcall
        exact .push h (by simpa using hcall)
      · exact .stepOperator hstands (.name pos ident) h

theorem Accounts.run {lexemes : List Lexeme} {state last : ReadState} {read : List Lexeme}
    (hstate : Accounts read state) (husable : ∀ lexeme ∈ lexemes, lexeme.token.IsUsable)
    (h : lexemes.foldlM ReadState.step state = .ok last) : Accounts (read ++ lexemes) last := by
  induction lexemes generalizing state read with
  | nil =>
      cases h
      simpa using hstate
  | cons lexeme lexemes ih =>
      rw [List.foldlM_cons] at h
      cases hstep : state.step lexeme with
      | error cause => rw [hstep] at h; cases h
      | ok next =>
          rw [hstep] at h
          have hnext := hstate.step (husable _ List.mem_cons_self) hstep
          have hlast := ih hnext (fun other hmem => husable other (List.mem_cons_of_mem _ hmem)) h
          simpa using hlast

theorem Stands.close {stack : List Frame} {left e : Expr} {before more : List Lexeme}
    (hstands : Stands stack before) (hleft : Renders operandLevel left more)
    (h : finish.close stack left = .ok e) : Renders 0 e (before ++ more) := by
  obtain ⟨below, above, heq, hbelow, habove⟩ :=
    hstands.join hleft (Nat.zero_le _) (openLevel_le stack)
  rw [heq]
  unfold finish.close at h
  split at h
  · rename_i hstack
    rw [hstack] at hbelow habove
    cases h
    cases hbelow
    exact habove
  · cases h

/-- Where a reader ends with an expression, the tokens write it. -/
theorem Accounts.finish {state : ReadState} {e : Expr} {read : List Lexeme}
    (hstate : Accounts read state) (h : state.finish = .ok e) : Renders 0 e read := by
  cases state with
  | operand stack => cases h
  | named stack pos ident =>
      obtain ⟨before, rfl, hstands⟩ := hstate
      exact hstands.close (.name pos ident) h
  | operator stack left =>
      obtain ⟨before, more, rfl, hstands, hleft⟩ := hstate
      exact hstands.close hleft h

/-! ### A whole text -/

theorem isUsable_of_literalErrors {lexemes : List Lexeme} (h : literalErrors lexemes = []) :
    ∀ lexeme ∈ lexemes, lexeme.token.IsUsable := by
  intro lexeme hmem cause htoken
  rw [literalErrors, List.filterMap_eq_nil_iff] at h
  have hnone := h lexeme hmem
  rw [htoken] at hnone
  cases hnone

/-- What a text is parsed to is written by the text. -/
theorem writtenBy_of_parse {text : List Char} {e : Expr} (h : parse text = .ok e) :
    e.WrittenBy text := by
  rw [parse] at h
  split at h
  · cases h
  · rename_i lexemes hlexemes
    unfold ofLexemes at h
    cases hfold : lexemes.foldlM ReadState.step (.operand []) with
    | error cause => rw [hfold] at h; cases h
    | ok state =>
        rw [hfold] at h
        cases hfinish : state.finish with
        | error cause =>
            change (state.finish >>= _) = _ at h
            rw [hfinish] at h
            cases h
        | ok read =>
            change (state.finish >>= _) = _ at h
            rw [hfinish] at h
            cases herrors : literalErrors lexemes with
            | cons cause more => simp [herrors] at h; cases h
            | nil =>
                have husable := isUsable_of_literalErrors herrors
                simp [herrors] at h
                cases h
                have hstart : Accounts [] (.operand []) := Stands.nil
                have haccount := hstart.run husable hfold
                exact ⟨lexemes, lexemes?_divides hlexemes husable, haccount.finish hfinish⟩

/-- Reading accepts nothing but expressions. If what is read is not the text itself kept as
invalid, the text divides into words between gaps, and these write the expression: each operand
binds at least as tightly as its place demands, to the right one level tighter, and each node has
the place of its token. A text that writes no expression is kept whole. -/
theorem read_sound (text : List Char) :
    ((∀ s, Expr.read text ≠ .invalid s) → (Expr.read text).WrittenBy text) ∧
      ((∀ e : Expr, ¬e.WrittenBy text) → Expr.read text = .invalid (String.ofList text)) := by
  rw [Expr.read]
  cases hparse : parse text with
  | error cause => exact ⟨fun hvalid => absurd rfl (hvalid _), fun _ => rfl⟩
  | ok e =>
      have hwritten := writtenBy_of_parse hparse
      exact ⟨fun _ => hwritten, fun hnone => absurd hwritten (hnone e)⟩

/-- A plus sign and parentheses that leave nothing, a sign behind an operator, and a line break
in the middle; and a text that starts no word. -/
theorem read_sound_decorated :
    (Expr.read "+(a) - -b\n *f('x', \"y\")".toList).WrittenBy
        "+(a) - -b\n *f('x', \"y\")".toList ∧
      Expr.read ['#'] = .invalid "#" := by
  constructor
  · apply (read_sound _).1
    have hvalid : (match Expr.read "+(a) - -b\n *f('x', \"y\")".toList with
        | .invalid _ => false
        | _ => true) = true := by decide +kernel
    intro s hinvalid
    rw [hinvalid] at hvalid
    cases hvalid
  · apply (read_sound _).2
    rintro e ⟨lexemes, hdivides, hrenders⟩
    generalize htext : ['#'] = text at hdivides
    cases hdivides with
    | gap hspace =>
        subst htext
        exact absurd (hspace '#' List.mem_cons_self) (by decide)
    | @word _ space word rest token more hspace htoken hrest =>
        obtain ⟨c, tail, rfl, hhash⟩ := htoken.head
        cases space with
        | nil => exact hhash (List.cons.inj htext).1.symm
        | cons d space =>
            obtain rfl : '#' = d := (List.cons.inj htext).1
            exact absurd (hspace '#' List.mem_cons_self) (by decide)

end Expr

end ToyC
