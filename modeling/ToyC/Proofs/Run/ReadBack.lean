import ToyC.Proofs.Number.Division
import ToyC.Proofs.Printf.Format
import ToyC.Proofs.Syntax.Reading
import ToyC.Run.Eval

/-!
Printed integers as program text. Without flags an integer is printed as its digits,
behind a minus sign where it is negative. Read as an expression this is a literal, or
a sign in front of one; a sign binds tighter than every operator between operands, so
two printed integers can stand on both sides of one.
-/

namespace ToyC

/-! ### Places do not matter -/

mutual

theorem eval_unplaced (env : Env) (scope : Scope) :
    ∀ e : Expr, eval env scope e.unplaced = eval env scope e
  | .literal .. | .name .. | .invalid _ => by simp only [Expr.unplaced, eval]
  | .unary pos op e => by simp only [Expr.unplaced, eval, eval_unplaced env scope e]
  | .binary pos op left right => by
      cases op <;>
        simp only [Expr.unplaced, eval, eval_unplaced env scope left, eval_unplaced env scope right]
  | .call pos func args => by
      have hlength : (Expr.allUnplaced args).length = args.length := by
        rw [Expr.allUnplaced_eq_map, List.length_map]
      simp only [Expr.unplaced, eval, evalArgs_unplaced env scope args, hlength]

theorem evalArgs_unplaced (env : Env) (scope : Scope) :
    ∀ args : List Expr, evalArgs env scope (Expr.allUnplaced args) = evalArgs env scope args
  | [] => by simp only [Expr.allUnplaced]
  | arg :: rest => by
      simp only [Expr.allUnplaced, evalArgs, eval_unplaced env scope arg,
        evalArgs_unplaced env scope rest]

end

/-- A text that writes an expression is worth what the expression is worth. -/
theorem evaluate_read_spaced {e : Expr} (h : e.Writable) (hdepth : e.depth 0 ≤ maxNesting)
    {text : List Char}
    (hspaced : Spaced Token.isGap ((e.tokens 0).map (Token.spell false)) text)
    (env : Env) (scope : Scope) :
    evaluate env scope (Expr.read text) = evaluate env scope e := by
  have hread := Expr.read_written h hdepth hspaced (List.forall_mem_nil _)
  rw [List.append_nil] at hread
  rw [evaluate, evaluate, ← eval_unplaced env scope (Expr.read text), hread,
    eval_unplaced env scope e]

/-! ### Printing -/

/-- The formats that print an integer in decimal as it is. -/
def decimalFormats : List String :=
  ["%d", "%i", "%u", "%s"]

namespace Printf

theorem integer_plain (negative : Bool) (digits : List Char) :
    Layout.integer {} negative [] digits =
      if negative then '-' :: digits else digits := by
  cases negative <;> simp [Layout.integer, Layout.placeNumber, Layout.sign]

theorem show_decimal {n : Int} (h : (Decimal.digits n.natAbs).length ≤ maxDigits) :
    Directive.show ⟨[], .decimal⟩ (.number (.int n)) = .ok (Decimal.signed n) := by
  have hlayout : numberLayout? true [] = some {} := rfl
  have hnumber : number? .decimal [] (.int n) = some (Decimal.signed n) := by
    simp [number?, Number.truncate?, hlayout, Nat.not_lt.mpr h, integer_plain, Decimal.signed]
  simp only [Directive.show, hnumber]

theorem show_string {n : Int} (h : (Decimal.digits n.natAbs).length ≤ maxDigits) :
    Directive.show ⟨[], .string⟩ (.number (.int n)) = .ok (Decimal.signed n) := by
  have hlayout : Layout.read [] = .ok {} := rfl
  have hplain : Number.plainText (.int n) = .ok (String.ofList (Decimal.signed n)) := by
    simp only [Number.plainText, Decimal.numeral, if_neg (Nat.not_lt.mpr h), Decimal.signed]
  have htext : Layout.text {} (Decimal.signed n) = Decimal.signed n := by simp [Layout.text]
  simp only [Directive.show, hplain, hlayout]
  change Except.ok (Layout.text {} (String.ofList (Decimal.signed n)).toList) = _
  rw [String.toList_ofList, htext]

/-- A format of one directive prints what the directive makes of its value. -/
theorem format_directive {d : Directive} (hvalue : d.conversion ≠ .percent) {fmt : String}
    {text : List Char} (hfmt : fmt.toList = '%' :: text)
    (hread : Directive.read? text = some (d, []))
    {value : Value} {shown : List Char} (hshown : d.show value = .ok shown) :
    format fmt [value] = .ok (String.ofList shown) := by
  have hpieces : pieces fmt.toList = [.directive d] := by
    rw [hfmt, pieces_directive hread, pieces]
  rw [format, hpieces, fill_shown hvalue, hshown]
  change Except.ok (String.ofList (shown ++ [])) = _
  rw [List.append_nil]

theorem format_integer {n : Int} (h : (Decimal.digits n.natAbs).length ≤ maxDigits) {fmt : String}
    (hfmt : fmt ∈ decimalFormats) :
    format fmt [.number (.int n)] = .ok (String.ofList (Decimal.signed n)) := by
  simp only [decimalFormats, List.mem_cons, List.not_mem_nil, or_false] at hfmt
  rcases hfmt with rfl | rfl | rfl | rfl
  · exact format_directive (by decide) rfl rfl (show_decimal h)
  · exact format_directive (by decide) rfl rfl (show_decimal h)
  · exact format_directive (by decide) rfl rfl (show_decimal h)
  · exact format_directive (by decide) rfl rfl (show_string h)

end Printf

/-! ### Reading -/

namespace Expr

/-- The expression that an integer in decimal is read as: a literal, or a minus sign and one. -/
def ofInt (n : Int) : Expr :=
  let size : Expr := .literal {} (.number (.int n.natAbs))
  if n < 0 then .unary {} .neg size else size

theorem ofInt_writable {n : Int} (h : (Decimal.digits n.natAbs).length ≤ maxDigits) :
    (ofInt n).Writable := by
  have hsize : Writable (.literal {} (.number (.int n.natAbs))) :=
    Writable.number {} (Int.natCast_nonneg _) h
  rw [ofInt]
  split
  · exact Writable.unary {} .neg hsize
  · exact hsize

theorem ofInt_depth_le (n : Int) (level : Nat) : (ofInt n).depth level ≤ 1 := by
  rw [ofInt]
  split
  · exact Nat.le_refl 1
  · exact Nat.zero_le 1

/-- A printed integer writes its expression at every place. -/
theorem ofInt_spaced (n : Int) (level : Nat) :
    Spaced Token.isGap (((ofInt n).tokens level).map (Token.spell false)) (Decimal.signed n) := by
  have hsize : Token.spell false (.literal (.number (.int n.natAbs))) =
      Decimal.digits n.natAbs := by
    rw [Token.spell, Int.toNat_natCast]
  have hwords : (((ofInt n).tokens level).map (Token.spell false)).flatten = Decimal.signed n := by
    rw [ofInt, Decimal.signed, ← hsize]
    split
    · simp only [tokens, List.map_cons, List.map_nil, List.flatten_cons, List.flatten_nil,
        List.append_nil]
      rfl
    · simp only [tokens, List.map_cons, List.map_nil, List.flatten_cons, List.flatten_nil,
        List.append_nil]
  exact hwords ▸ Spaced.flatten _ _

theorem eval_ofInt (env : Env) (scope : Scope) (n : Int) :
    eval env scope (ofInt n) = pure (.number (.int n)) := by
  rw [ofInt]
  split
  · rename_i hneg
    have hsize : -(n.natAbs : Int) = n := by omega
    simp only [eval, pure_bind]
    change (pure (.number (.int (-(n.natAbs : Int)))) : Evaluation Value) = _
    rw [hsize]
  · rename_i hpos
    have hsize : (n.natAbs : Int) = n := by omega
    rw [eval, hsize]

/-- Two integers with an operator between them. -/
theorem eval_binary_ofInt (env : Env) (scope : Scope) {op : BinaryOp} {m n k : Int}
    (h : op.exact? m n = some k) :
    eval env scope (.binary {} op (ofInt m) (ofInt n)) = pure (.number (.int k)) := by
  have hresult : eval env scope (.binary {} op (ofInt m) (ofInt n)) =
      (do return .number (← Evaluation.ofResult (Number.operate op (.int m) (.int n)))) := by
    cases op with
    | or => cases h
    | and => cases h
    | compare test =>
        simp only [eval, eval_ofInt, pure_bind]
        rfl
    | arith op =>
        simp only [eval, eval_ofInt, pure_bind]
        rfl
  rw [hresult, Number.operate_of_exact? h]
  rfl

/-- An operator may stand between the texts of two operands that bind tightly enough for it, with
any gaps around it. -/
theorem binary_spaced (op : BinaryOp) {left right : Expr} {first second before after : List Char}
    (hleft : Spaced Token.isGap ((left.tokens op.level).map (Token.spell false)) first)
    (hright : Spaced Token.isGap ((right.tokens (op.level + 1)).map (Token.spell false)) second)
    (hwritable : right.Writable) (hbefore : ∀ c ∈ before, Token.isGap c = true)
    (hafter : ∀ c ∈ after, Token.isGap c = true) :
    Spaced Token.isGap (((Expr.binary {} op left right).tokens 0).map (Token.spell false))
      (first ++ (before ++ op.symbol.toList ++ (after ++ second))) := by
  have htokens : (Expr.binary {} op left right).tokens 0 =
      left.tokens op.level ++ .operator op :: right.tokens (op.level + 1) := by
    rw [tokens, if_neg (Nat.not_lt_zero _)]
  have hwords : (right.tokens (op.level + 1)).map (Token.spell false) ≠ [] := by
    simpa using hwritable.tokens_ne_nil (op.level + 1)
  rw [htokens, List.map_append, List.map_cons]
  exact hleft.append (Spaced.cons hbefore (hright.front hwords hafter))

end Expr

/-- An integer is worth what it is printed for. Its text, printed without flags, is an expression
that is worth the integer in every scope; and the texts of two integers with an operator between
them, and any gaps around it, are worth what the operator makes of the integers, exactly. -/
theorem printed_readBack {m n : Int} (hm : (Decimal.digits m.natAbs).length ≤ maxDigits)
    (hn : (Decimal.digits n.natAbs).length ≤ maxDigits) {fmt other : String}
    (hfmt : fmt ∈ decimalFormats) (hother : other ∈ decimalFormats) :
    ∃ left right : String, Printf.format fmt [.number (.int m)] = .ok left ∧
      Printf.format other [.number (.int n)] = .ok right ∧
      ∀ (env : Env) (scope : Scope),
        evaluate env scope (Expr.read left.toList) = .done (.ok (.int m)) ∧
        ∀ (op : BinaryOp) (k : Int) (before after : List Char), op.exact? m n = some k →
          (∀ c ∈ before, Token.isGap c = true) → (∀ c ∈ after, Token.isGap c = true) →
          evaluate env scope (Expr.read (left.toList ++
            (before ++ op.symbol.toList ++ (after ++ right.toList)))) = .done (.ok (.int k)) := by
  refine ⟨_, _, Printf.format_integer hm hfmt, Printf.format_integer hn hother, ?_⟩
  intro env scope
  rw [String.toList_ofList, String.toList_ofList]
  have hleft := Expr.ofInt_writable hm
  have hright := Expr.ofInt_writable hn
  have hmax : 2 ≤ maxNesting := by decide
  constructor
  · have hdepth : (Expr.ofInt m).depth 0 ≤ maxNesting :=
      Nat.le_trans (Expr.ofInt_depth_le m 0) (Nat.le_of_succ_le hmax)
    rw [evaluate_read_spaced hleft hdepth (Expr.ofInt_spaced m 0), evaluate, Expr.eval_ofInt]
    rfl
  · intro op k before after hop hbefore hafter
    have hdepth : (Expr.binary {} op (.ofInt m) (.ofInt n)).depth 0 ≤ maxNesting := by
      have hfirst := Expr.ofInt_depth_le m op.level
      have hsecond := Expr.ofInt_depth_le n (op.level + 1)
      rw [Expr.depth, if_neg (Nat.not_lt_zero _), Nat.zero_add, Frame.cost]
      exact Nat.le_trans (Nat.max_le.mpr ⟨by omega, by omega⟩) hmax
    have hspaced := Expr.binary_spaced op (Expr.ofInt_spaced m _) (Expr.ofInt_spaced n _) hright
      hbefore hafter
    rw [evaluate_read_spaced (.binary {} op hleft hright) hdepth hspaced, evaluate,
      Expr.eval_binary_ofInt env scope hop]
    rfl

/-- The signs of two negative integers beside the operator, without a gap: `-3--4` is `1`. -/
theorem printed_readBack_negative :
    ∃ left right : String, Printf.format "%d" [.number (.int (-3))] = .ok left ∧
      Printf.format "%s" [.number (.int (-4))] = .ok right ∧
      ∀ (env : Env) (scope : Scope), evaluate env scope (Expr.read left.toList) =
          .done (.ok (.int (-3))) ∧
        evaluate env scope (Expr.read (left.toList ++ ('-' :: right.toList))) =
          .done (.ok (.int 1)) := by
  have hleft : (Decimal.digits (-3 : Int).natAbs).length ≤ maxDigits := by decide
  have hright : (Decimal.digits (-4 : Int).natAbs).length ≤ maxDigits := by decide
  obtain ⟨left, right, hfirst, hsecond, hworth⟩ :=
    printed_readBack hleft hright (by decide : "%d" ∈ decimalFormats)
      (by decide : "%s" ∈ decimalFormats)
  refine ⟨left, right, hfirst, hsecond, fun env scope => ?_⟩
  obtain ⟨hself, hjoined⟩ := hworth env scope
  exact ⟨hself, hjoined (.arith .sub) 1 [] [] rfl (List.forall_mem_nil _) (List.forall_mem_nil _)⟩

end ToyC
