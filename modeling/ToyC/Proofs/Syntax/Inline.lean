import ToyC.Proofs.Source.Division
import ToyC.Proofs.Syntax.Reading
import ToyC.Text.Word

/-!
Expressions inside logical lines. Such an expression stands on one line, and its
texts hold no brackets, since braces and the parentheses of headers are counted
inside literals too. Then no scan of lines, lists or headers cuts it, and it is
read back wherever it stands.
-/

namespace ToyC

open Source (Walk isSpace isBracket isQuote isSeparator isBlank_of_isSpace isSpace_cases)
open Text (isBlank Trimmed StopsRun)

namespace Token

/-! ### Characters of names -/

theorem isWord_of_isNameRest {c : Char} (h : isNameRest c = true) : Text.isWord c = true := by
  have hrange := isNameRest_range h
  have hascii : c.toNat < 128 := by omega
  rw [Text.isWord, if_pos hascii]
  exact h

/-- A name character is nothing that a scan looks at. -/
theorem plain_of_isNameRest {c : Char} (h : isNameRest c = true) :
    isQuote c = false ∧ isBracket c = false ∧ c ≠ '\n' ∧ isSeparator c = false := by
  have hne : ∀ d : Char, isNameRest d = false → (c == d) = false := by
    intro d hd
    rw [beq_eq_false_iff_ne]
    exact ne_of_isNameRest h hd
  refine ⟨?_, ?_, ne_of_isNameRest h (by decide), ?_⟩
  · rw [isQuote, hne '"' (by decide), hne '\'' (by decide)]
    rfl
  · rw [isBracket, hne '(' (by decide), hne ')' (by decide), hne '{' (by decide),
      hne '}' (by decide)]
    rfl
  · rw [isSeparator, hne ',' (by decide), hne ';' (by decide)]
    rfl

/-- A word of name characters holds nothing that a scan looks at. -/
theorem walk_word {sep : Char → Bool} (hsep : ∀ c, sep c = true → isSeparator c = true)
    {word : List Char} (h : ∀ c ∈ word, isNameRest c = true) (depth : Nat) :
    Walk sep depth word depth := by
  apply Walk.run
  intro c hc
  obtain ⟨hquote, hbracket, hline, hseparator⟩ := plain_of_isNameRest (h c hc)
  exact ⟨hquote, hbracket, hline, Source.not_sep hsep hseparator⟩

theorem trimmed_word {word : List Char} (h : ∀ c ∈ word, isNameRest c = true) (hne : word ≠ []) :
    Trimmed word := by
  constructor
  · obtain ⟨c, rest, rfl⟩ := List.exists_cons_of_ne_nil hne
    exact ⟨c, rest, rfl, isBlank_of_isNameRest (h c List.mem_cons_self)⟩
  · exact ⟨word.dropLast, word.getLast hne, (List.dropLast_concat_getLast hne).symm,
      isBlank_of_isNameRest (h _ (List.getLast_mem hne))⟩

/-! ### Tokens in a line -/

/-- A token whose text, if it has one, holds no brackets. -/
def Tame : Token → Prop
  | .literal (.text s) => ∀ c ∈ s.toList, isBracket c = false
  | _ => True

/-- Tokens that neither move the depth of parentheses nor divide a list. -/
def isInert : Token → Bool
  | .leftParen | .rightParen | .comma => false
  | _ => true

/-- Tokens that lead from one depth of parentheses to another, with commas only inside them. -/
inductive Nested : Nat → List Token → Nat → Prop
  | nil (depth : Nat) : Nested depth [] depth
  | inert {depth last : Nat} {token : Token} {tokens : List Token} (h : token.isInert = true)
      (rest : Nested depth tokens last) : Nested depth (token :: tokens) last
  | comma {depth last : Nat} {tokens : List Token} (rest : Nested (depth + 1) tokens last) :
      Nested (depth + 1) (.comma :: tokens) last
  | opening {depth last : Nat} {tokens : List Token} (rest : Nested (depth + 1) tokens last) :
      Nested depth (.leftParen :: tokens) last
  | closing {depth last : Nat} {tokens : List Token} (rest : Nested depth tokens last) :
      Nested (depth + 1) (.rightParen :: tokens) last

theorem Nested.append {first middle last : Nat} {front back : List Token}
    (hfront : Nested first front middle) (hback : Nested middle back last) :
    Nested first (front ++ back) last := by
  induction hfront with
  | nil depth => exact hback
  | inert h rest ih => exact inert h (ih hback)
  | comma rest ih => exact comma (ih hback)
  | opening rest ih => exact opening (ih hback)
  | closing rest ih => exact closing (ih hback)

/-- The spelling of an inert token holds no separator and closes what it opens. -/
theorem walk_spell {token : Token} (hplain : token.Plain) (htame : token.Tame)
    (hinert : token.isInert = true) (depth : Nat) :
    Walk isSeparator depth (token.spell true) depth := by
  cases token with
  | name ident => exact walk_word (fun _ h => h) (isNameRest_of_isName hplain) depth
  | literal value =>
      cases value with
      | text s => exact Walk.literal htame (Walk.nil depth)
      | number a =>
          cases a with
          | float x => exact absurd hplain id
          | int n =>
              apply walk_word (fun _ h => h)
              intro c hc
              exact isNameRest_of_isDigit
                (Nat.isDigit_of_mem_toDigits (by decide) (by decide) hc)
  | unusable cause => exact absurd hplain id
  | bang => exact Walk.run depth (by decide)
  | operator op =>
      cases op with
      | or => exact Walk.run depth (by decide)
      | and => exact Walk.run depth (by decide)
      | compare test => cases test <;> exact Walk.run depth (by decide)
      | arith op => cases op <;> exact Walk.run depth (by decide)
  | leftParen => cases hinert
  | rightParen => cases hinert
  | comma => cases hinert

theorem walk_cons {depth middle last : Nat} {word text : List Char} {words : List (List Char)}
    (hword : Walk isSeparator depth word middle)
    (hrest : ∀ more, Spaced isSpace words more → Walk isSeparator middle more last)
    (hspaced : Spaced isSpace (word :: words) text) : Walk isSeparator depth text last := by
  cases hspaced with
  | cons hspace rest =>
      have hgap := Walk.spaces (fun c hc => Source.isSeparator_of_isSpace hc) hspace depth
      exact (hgap.append hword).append (hrest _ rest)

/-- A text of nested tokens leads from the first depth to the last. -/
theorem Nested.walk {depth last : Nat} {tokens : List Token} (h : Nested depth tokens last)
    (hplain : ∀ token ∈ tokens, token.Plain) (htame : ∀ token ∈ tokens, token.Tame)
    {text : List Char} (hspaced : Spaced isSpace (tokens.map (spell true)) text) :
    Walk isSeparator depth text last := by
  induction h generalizing text with
  | nil depth =>
      cases hspaced
      exact Walk.nil depth
  | @inert depth _ token tokens hinert rest ih =>
      have hword := walk_spell (hplain token List.mem_cons_self)
        (htame token List.mem_cons_self) hinert depth
      exact walk_cons hword (fun more hmore => ih (List.forall_mem_cons.mp hplain).2
        (List.forall_mem_cons.mp htame).2 hmore) hspaced
  | @comma depth _ tokens rest ih =>
      have hword : Walk isSeparator (depth + 1) [','] (depth + 1) :=
        Walk.plain rfl rfl (by decide) (fun hzero => nomatch hzero) (Walk.nil _)
      exact walk_cons hword (fun more hmore => ih (List.forall_mem_cons.mp hplain).2
        (List.forall_mem_cons.mp htame).2 hmore) hspaced
  | @opening depth _ tokens rest ih =>
      have hword : Walk isSeparator depth ['('] (depth + 1) := Walk.opening (Walk.nil _)
      exact walk_cons hword (fun more hmore => ih (List.forall_mem_cons.mp hplain).2
        (List.forall_mem_cons.mp htame).2 hmore) hspaced
  | @closing depth _ tokens rest ih =>
      have hword : Walk isSeparator (depth + 1) [')'] depth := Walk.closing (Walk.nil _)
      exact walk_cons hword (fun more hmore => ih (List.forall_mem_cons.mp hplain).2
        (List.forall_mem_cons.mp htame).2 hmore) hspaced

/-- Where an operand ends, the text ends with no blank. -/
theorem spell_last {token : Token} (hplain : token.Plain) (hcloses : token.closes = true) :
    ∃ front c, token.spell true = front ++ [c] ∧ isBlank c = false := by
  have hne := spell_ne_nil hplain true
  cases token with
  | name ident => exact (trimmed_word (isNameRest_of_isName hplain) hne).ends
  | literal value =>
      cases value with
      | text s => exact ⟨'"' :: Source.escape true s.toList, '"', rfl, by decide⟩
      | number a =>
          cases a with
          | float x => exact absurd hplain id
          | int n =>
              have hdigits : ∀ c ∈ Decimal.digits n.toNat, isNameRest c = true := fun c hc =>
                isNameRest_of_isDigit (Nat.isDigit_of_mem_toDigits (by decide) (by decide) hc)
              exact (trimmed_word hdigits hne).ends
  | rightParen => exact ⟨[], ')', rfl, by decide⟩
  | _ => cases hcloses

end Token

namespace Expr

open Token (Nested)

theorem nextTokens_nested {args : List Expr} {depth : Nat}
    (h : ∀ arg ∈ args, Nested (depth + 1) (tokens 0 arg) (depth + 1)) :
    Nested (depth + 1) (nextTokens args) depth := by
  induction args with
  | nil => exact Nested.closing (Nested.nil depth)
  | cons e rest ih =>
      have hrest := ih fun arg harg => h arg (List.mem_cons_of_mem _ harg)
      exact Nested.comma ((h e List.mem_cons_self).append hrest)

theorem argTokens_nested {args : List Expr} {depth : Nat}
    (h : ∀ arg ∈ args, Nested (depth + 1) (tokens 0 arg) (depth + 1)) :
    Nested (depth + 1) (argTokens args) depth := by
  cases args with
  | nil => exact Nested.closing (Nested.nil depth)
  | cons e rest =>
      have hrest := nextTokens_nested fun arg harg => h arg (List.mem_cons_of_mem _ harg)
      exact (h e List.mem_cons_self).append hrest

/-- The tokens of an expression close the parentheses that they open. -/
theorem Writable.nested {e : Expr} (h : e.Writable) (level depth : Nat) :
    Nested depth (e.tokens level) depth := by
  induction h generalizing level depth with
  | number pos hnonneg hsize => exact Nested.inert rfl (Nested.nil depth)
  | text pos s => exact Nested.inert rfl (Nested.nil depth)
  | name pos hident => exact Nested.inert rfl (Nested.nil depth)
  | unary pos op hoperand ih =>
      cases op with
      | neg => exact Nested.inert rfl (ih operandLevel depth)
      | not => exact Nested.inert rfl (ih operandLevel depth)
  | binary pos op hleft hright ihleft ihright =>
      have hplain : ∀ inner, Nested inner (tokens op.level _ ++
          .operator op :: tokens (op.level + 1) _) inner := fun inner =>
        (ihleft op.level inner).append (Nested.inert rfl (ihright (op.level + 1) inner))
      rw [tokens]
      split
      · have hclose : Nested (depth + 1) [.rightParen] depth := Nested.closing (Nested.nil depth)
        exact Nested.opening ((hplain (depth + 1)).append hclose)
      · exact hplain depth
  | call pos hfunc hargs ih =>
      have hopen := argTokens_nested fun arg harg => ih arg harg 0 (depth + 1)
      exact Nested.inert rfl (Nested.opening hopen)

/-- An expression that can stand inside a logical line. -/
structure Printable (e : Expr) : Prop where
  writable : e.Writable
  depth : e.depth 0 ≤ maxNesting
  tame : ∀ token ∈ e.tokens 0, token.Tame

/-- A text that writes an expression inside a logical line, from its first token to its last. -/
structure Inline (e : Expr) (text : List Char) : Prop extends Printable e where
  spaced : Spaced isSpace ((e.tokens 0).map (Token.spell true)) text
  starts : StopsRun isBlank text

namespace Inline

variable {e : Expr} {text : List Char}

theorem head (h : e.Inline text) : ∃ c rest, text = c :: rest ∧ isBlank c = false ∧ c ≠ '=' := by
  have hflow := h.writable.flow 0
  have hspaced := h.spaced
  have hstarts := h.starts
  generalize e.tokens 0 = tokens at hflow hspaced
  cases hflow with
  | @cons _ _ token tokens hplain hfits rest =>
      rw [List.map_cons] at hspaced
      cases hspaced with
      | @cons space _ more _ hspace hmore =>
          obtain ⟨c, front, hspell, hne, hblank⟩ := Token.head_of_opens hfits hplain true
          rw [List.append_assoc] at hstarts ⊢
          rw [Source.eq_nil_of_stops hspace hstarts, hspell]
          exact ⟨c, front ++ more, rfl, hblank, hne⟩

theorem last (h : e.Inline text) : ∃ front c, text = front ++ [c] ∧ isBlank c = false := by
  have hflow := h.writable.flow 0
  obtain ⟨front, token, htokens, hcloses⟩ := hflow.last rfl (h.writable.tokens_ne_nil 0)
  have hplain : token.Plain := by
    apply hflow.plain
    rw [htokens]
    exact List.mem_append_right _ List.mem_cons_self
  have hspaced := h.spaced
  rw [htokens, List.map_append, List.map_cons, List.map_nil] at hspaced
  obtain ⟨first, second, rfl, -, hsecond⟩ := hspaced.append_inv
  cases hsecond with
  | @cons space _ more _ hspace hmore =>
      cases hmore
      obtain ⟨inside, c, hspell, hblank⟩ := Token.spell_last hplain hcloses
      refine ⟨first ++ (space ++ inside), c, ?_, hblank⟩
      rw [hspell]
      simp

theorem trimmed (h : e.Inline text) : Trimmed text := by
  obtain ⟨c, rest, hhead, hblank, -⟩ := h.head
  exact ⟨⟨c, rest, hhead, hblank⟩, h.last⟩

theorem walk (h : e.Inline text) : Walk isSeparator 0 text 0 :=
  (h.writable.nested 0 0).walk (h.writable.flow 0).plain h.tame h.spaced

/-- The expression is read back, whatever spaces stand around it. -/
theorem read (h : e.Inline text) {before behind : List Char}
    (hbefore : ∀ c ∈ before, isSpace c = true) (hbehind : ∀ c ∈ behind, isSpace c = true) :
    (Expr.read (before ++ text ++ behind)).unplaced = e.unplaced := by
  have hgap : ∀ c, isSpace c = true → Token.isGap c = true := by
    intro c hc
    rcases isSpace_cases hc with rfl | rfl | rfl <;> decide
  have hne : (e.tokens 0).map (Token.spell true) ≠ [] := by
    simpa using h.writable.tokens_ne_nil 0
  have hspaced := (h.spaced.front hne hbefore).mono hgap
  obtain ⟨found, hparse, hfound⟩ :=
    h.writable.parse h.depth hspaced fun c hc => hgap c (hbehind c hc)
  rw [Expr.read, hparse]
  exact hfound

theorem read_self (h : e.Inline text) : (Expr.read text).unplaced = e.unplaced := by
  have hread := h.read (List.forall_mem_nil _) (List.forall_mem_nil _)
  rwa [List.nil_append, List.append_nil] at hread

end Inline

end Expr

end ToyC
