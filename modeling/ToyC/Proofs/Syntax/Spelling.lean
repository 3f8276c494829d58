import ToyC.Source.Escape
import ToyC.Proofs.Text
import ToyC.Decimal.Numeral
import ToyC.Syntax.Token

/-!
Tokens as text, and reading them back. A token that a program can write is read
again from its own spelling as long as the character behind it does not carry it
on.
-/

namespace ToyC

namespace Token

open Text (isBlank isDigit StopsRun)

theorem stringBody?_cons {c : Char} (hescape : c ≠ '\\') (hquote : c ≠ '"') (rest : List Char) :
    stringBody? (c :: rest) =
      (stringBody? rest).map fun (body, behind) => (c :: body, behind) := by
  cases rest with
  | nil => simp [stringBody?, hescape]
  | cons d rest => simp [stringBody?, hescape]

theorem stringBody?_escape (breaks : Bool) (text rest : List Char) :
    stringBody? (Source.escape breaks text ++ '"' :: rest) =
      some (Source.escape breaks text, rest) := by
  induction text with
  | nil => rfl
  | cons c text ih =>
      rw [Source.escape]
      split
      · rename_i hc
        have hbreak : c ≠ '\n' := by rcases hc with rfl | rfl <;> decide
        simp [stringBody?, hbreak, ih]
      · rename_i hc
        split
        · simp [stringBody?, ih]
        · have hescape : c ≠ '\\' := fun heq => hc (Or.inl heq)
          have hquote : c ≠ '"' := fun heq => hc (Or.inr heq)
          simp [stringBody?_cons hescape hquote, ih]

/-- A name: a letter or underscore, then letters, digits and underscores, all in ASCII. -/
def isName (ident : List Char) : Bool :=
  match ident with
  | [] => false
  | c :: rest => isNameStart c && rest.all isNameRest

/-! ### Characters of names -/

theorem isUpper_iff {c : Char} : c.isUpper = true ↔ 65 ≤ c.toNat ∧ c.toNat ≤ 90 := by
  change decide (65 ≤ c.val ∧ c.val ≤ 90) = true ↔ _
  rw [decide_eq_true_eq, UInt32.le_iff_toNat_le, UInt32.le_iff_toNat_le]
  exact Iff.rfl

theorem isLower_iff {c : Char} : c.isLower = true ↔ 97 ≤ c.toNat ∧ c.toNat ≤ 122 := by
  change (decide (97 ≤ c.val) && decide (c.val ≤ 122)) = true ↔ _
  rw [Bool.and_eq_true, decide_eq_true_eq, decide_eq_true_eq, UInt32.le_iff_toNat_le,
    UInt32.le_iff_toNat_le]
  exact Iff.rfl

theorem isAlpha_iff {c : Char} : c.isAlpha = true ↔
    65 ≤ c.toNat ∧ c.toNat ≤ 90 ∨ 97 ≤ c.toNat ∧ c.toNat ≤ 122 := by
  rw [← isUpper_iff, ← isLower_iff]
  change (c.isUpper || c.isLower) = true ↔ _
  rw [Bool.or_eq_true]

theorem isDigit_iff {c : Char} : c.isDigit = true ↔ 48 ≤ c.toNat ∧ c.toNat ≤ 57 := by
  change (decide (48 ≤ c.val) && decide (c.val ≤ 57)) = true ↔ _
  rw [Bool.and_eq_true, decide_eq_true_eq, decide_eq_true_eq, UInt32.le_iff_toNat_le,
    UInt32.le_iff_toNat_le]
  exact Iff.rfl

theorem isNameRest_range {c : Char} (h : isNameRest c = true) :
    48 ≤ c.toNat ∧ c.toNat ≤ 57 ∨ 65 ≤ c.toNat ∧ c.toNat ≤ 90 ∨ c.toNat = 95 ∨
      97 ≤ c.toNat ∧ c.toNat ≤ 122 := by
  simp only [isNameRest, Char.isAlphanum, Bool.or_eq_true, isAlpha_iff, isDigit_iff,
    beq_iff_eq] at h
  rcases h with h | rfl
  · omega
  · decide

theorem ne_of_isNameRest {c d : Char} (h : isNameRest c = true) (hd : isNameRest d = false) :
    c ≠ d := by
  rintro rfl
  rw [hd] at h
  cases h

theorem isBlank_of_isNameRest {c : Char} (h : isNameRest c = true) : isBlank c = false := by
  have hrange := isNameRest_range h
  simp [isBlank]
  omega

theorem isNameRest_of_isNameStart {c : Char} (h : isNameStart c = true) : isNameRest c = true := by
  simp only [isNameStart, isNameRest, Char.isAlphanum, Bool.or_eq_true] at h ⊢
  rcases h with halpha | hunderscore
  · exact Or.inl (Or.inl halpha)
  · exact Or.inr hunderscore

theorem isNameRest_of_isDigit {c : Char} (h : c.isDigit = true) : isNameRest c = true := by
  simp [isNameRest, Char.isAlphanum, h]

theorem isNameRest_of_isName {ident : List Char} (h : isName ident = true) :
    ∀ c ∈ ident, isNameRest c = true := by
  cases ident with
  | nil => cases h
  | cons c rest =>
      simp only [isName, Bool.and_eq_true, List.all_eq_true] at h
      intro d hd
      rcases List.mem_cons.mp hd with rfl | hrest
      · exact isNameRest_of_isNameStart h.1
      · exact h.2 d hrest

/-! ### Spelling -/

/-- The characters of a token. The tokens that no program can write have none. -/
def spell (breaks : Bool) : Token → List Char
  | .name ident => ident.toList
  | .literal (.number (.int n)) => Decimal.digits n.toNat
  | .literal (.number (.float _)) => []
  | .literal (.text s) => '"' :: Source.escape breaks s.toList ++ ['"']
  | .unusable _ => []
  | .operator op => op.symbol.toList
  | .bang => ['!']
  | .leftParen => ['(']
  | .rightParen => [')']
  | .comma => [',']

/-- The tokens that `spell` writes. -/
def Plain : Token → Prop
  | .name ident => isName ident.toList = true
  | .literal (.number (.int n)) => 0 ≤ n ∧ (Decimal.digits n.toNat).length ≤ maxDigits
  | .literal (.number (.float _)) => False
  | .unusable _ => False
  | _ => True

/-- Characters that would carry a token on, if they came right behind it. -/
def continues : Token → Char → Bool
  | .name _, c => isNameRest c
  | .literal (.number _), c => isNameRest c || isDigit c || c == '.'
  | .operator (.compare .lt), c => c == '='
  | .operator (.compare .gt), c => c == '='
  | .bang, c => c == '='
  | _, _ => false

/-! ### One token is read back -/

theorem read?_name {ident : String} (h : isName ident.toList = true) {rest : List Char}
    (hrest : StopsRun isNameRest rest) :
    read? (ident.toList ++ rest) = some ⟨.name ident, ident.toList, rest⟩ := by
  cases hident : ident.toList with
  | nil => rw [hident] at h; cases h
  | cons c more =>
      rw [hident] at h
      simp only [isName, Bool.and_eq_true, List.all_eq_true] at h
      have hname : String.ofList (c :: more) = ident := by
        rw [← hident, String.ofList_toList]
      simp only [List.cons_append, read?, h.1, if_true, Text.takeWhile_run h.2 hrest,
        Text.dropWhile_run h.2 hrest, hname]

theorem splitExponent_of_stops {rest : List Char} (h : StopsRun isNameRest rest) :
    splitExponent rest = ([], rest) := by
  cases rest with
  | nil => rfl
  | cons e rest =>
      have he : isNameRest e = false := h e rfl
      have hne : ¬(e = 'e' ∨ e = 'E') := by
        rintro (rfl | rfl) <;> simp [isNameRest] at he
      simp [splitExponent, hne]

theorem number?_digits {n : Nat} (h : (Decimal.digits n).length ≤ maxDigits) {rest : List Char}
    (hrest : StopsRun (fun c => isNameRest c || isDigit c || c == '.') rest) :
    number? (Decimal.digits n ++ rest) =
      some ⟨.literal (.number (.int n)), Decimal.digits n, rest⟩ := by
  have hdigits : ∀ c ∈ Decimal.digits n, isDigit c = true := by
    intro c hc
    have hten : c.isDigit = true :=
      Nat.isDigit_of_mem_toDigits (b := 10) (n := n) (by decide) (by decide) hc
    simp [isDigit, Text.isDigit, Text.digitValue?_of_isDigit hten]
  have hdigitStop : StopsRun isDigit rest := by
    intro c hc
    have := hrest c hc
    simp only [Bool.or_eq_false_iff] at this
    exact this.1.2
  have hnameStop : StopsRun isNameRest rest := by
    intro c hc
    have := hrest c hc
    simp only [Bool.or_eq_false_iff] at this
    exact this.1.1
  have hne : Decimal.digits n ≠ [] := Nat.toDigits_ne_nil
  have hvalue : integer (Decimal.digits n) = .literal (.number (.int n)) := by
    rw [integer, if_neg (Nat.not_lt.mpr h), Decimal.digits, Text.digitsValue_toDigits]
  rw [number?]
  simp only [Text.takeWhile_run hdigits hdigitStop, Text.dropWhile_run hdigits hdigitStop]
  split
  · have hdot := hrest '.' rfl
    simp at hdot
  · rw [if_neg hne, splitExponent_of_stops hnameStop, hvalue]

theorem isNameStart_of_isDigit {c : Char} (h : c.isDigit = true) : isNameStart c = false := by
  have hunderscore : c ≠ '_' := by
    rintro rfl
    cases h
  rw [isDigit_iff] at h
  have hletter : c.isAlpha = false := by
    rw [Bool.eq_false_iff, ne_eq, isAlpha_iff]
    omega
  simp [isNameStart, hletter, hunderscore]

theorem read?_number {n : Nat} (h : (Decimal.digits n).length ≤ maxDigits) {rest : List Char}
    (hrest : StopsRun (fun c => isNameRest c || isDigit c || c == '.') rest) :
    read? (Decimal.digits n ++ rest) =
      some ⟨.literal (.number (.int n)), Decimal.digits n, rest⟩ := by
  have hread := number?_digits h hrest
  have hten : ∀ c ∈ Decimal.digits n, c.isDigit = true := fun c hc =>
    Nat.isDigit_of_mem_toDigits (b := 10) (n := n) (by decide) (by decide) hc
  cases hdigits : Decimal.digits n with
  | nil => exact absurd hdigits Nat.toDigits_ne_nil
  | cons c more =>
      rw [hdigits] at hread hten
      have hc := hten c List.mem_cons_self
      have hstart := isNameStart_of_isDigit hc
      have hdigit : isDigit c = true := by
        simp [isDigit, Text.isDigit, Text.digitValue?_of_isDigit hc]
      rw [List.cons_append] at hread ⊢
      rw [read?, hstart, if_neg Bool.false_ne_true, if_pos (Or.inl hdigit)]
      exact hread

theorem read?_text (breaks : Bool) (s : String) (rest : List Char) :
    read? (spell breaks (.literal (.text s)) ++ rest) =
      some ⟨.literal (.text s), spell breaks (.literal (.text s)), rest⟩ := by
  have hbody := stringBody?_escape breaks s.toList rest
  have hspell : spell breaks (.literal (.text s)) ++ rest =
      '"' :: (Source.escape breaks s.toList ++ '"' :: rest) := by
    simp [spell]
  rw [hspell, read?]
  simp [isNameStart, Text.isDigit, Text.digitValue?, hbody, Source.unescape_escape, spell]

/-- The tokens that are spelled with signs. -/
def isSign : Token → Bool
  | .operator _ | .bang | .leftParen | .rightParen | .comma => true
  | _ => false

theorem sign?_spell {token : Token} (breaks : Bool) (h : token.isSign = true) {rest : List Char}
    (hrest : StopsRun token.continues rest) :
    sign? (token.spell breaks ++ rest) = some (token, (token.spell breaks).length) := by
  -- Only `<`, `>` and `!` have a longer sign that starts with them.
  have hother : token ≠ .operator (.compare .lt) → token ≠ .operator (.compare .gt) →
      token ≠ .bang →
      sign? (token.spell breaks ++ rest) = some (token, (token.spell breaks).length) := by
    intro hlt hgt hbang
    cases token with
    | operator op =>
        cases op with
        | or => rfl
        | and => rfl
        | arith op => cases op <;> rfl
        | compare test => cases test <;> first | rfl | contradiction
    | bang => contradiction
    | leftParen => rfl
    | rightParen => rfl
    | comma => rfl
    | name ident => cases h
    | literal value => cases h
    | unusable cause => cases h
  by_cases hlong : token = .operator (.compare .lt) ∨ token = .operator (.compare .gt) ∨
      token = .bang
  · cases rest with
    | nil => rcases hlong with rfl | rfl | rfl <;> rfl
    | cons c rest =>
        have hc : token.continues c = false := hrest c rfl
        rcases hlong with rfl | rfl | rfl
        · have hne : c ≠ '=' := by simpa [continues] using hc
          simp [spell, BinaryOp.symbol, Comparison.symbol, sign?, hne]
        · have hne : c ≠ '=' := by simpa [continues] using hc
          simp [spell, BinaryOp.symbol, Comparison.symbol, sign?, hne]
        · have hne : c ≠ '=' := by simpa [continues] using hc
          simp [spell, sign?, hne]
  · simp only [not_or] at hlong
    exact hother hlong.1 hlong.2.1 hlong.2.2

theorem read?_sign {token : Token} (breaks : Bool) (h : token.isSign = true) {rest : List Char}
    (hrest : StopsRun token.continues rest) :
    read? (token.spell breaks ++ rest) = some ⟨token, token.spell breaks, rest⟩ := by
  have hsign := sign?_spell breaks h hrest
  have hhead : ∃ c more, token.spell breaks = c :: more ∧ isNameStart c = false ∧
      ¬(isDigit c = true ∨ c = '.') ∧ c ≠ '"' ∧ c ≠ '\'' := by
    cases token with
    | operator op =>
        cases op with
        | or => exact ⟨'|', ['|'], rfl, by decide⟩
        | and => exact ⟨'&', ['&'], rfl, by decide⟩
        | arith op => cases op <;> exact ⟨_, [], rfl, by decide⟩
        | compare test => cases test <;> exact ⟨_, _, rfl, by decide⟩
    | bang => exact ⟨'!', [], rfl, by decide⟩
    | leftParen => exact ⟨'(', [], rfl, by decide⟩
    | rightParen => exact ⟨')', [], rfl, by decide⟩
    | comma => exact ⟨',', [], rfl, by decide⟩
    | name ident => cases h
    | literal value => cases h
    | unusable cause => cases h
  obtain ⟨c, more, hspell, hname, hdigit, hdouble, hsingle⟩ := hhead
  rw [hspell] at hsign ⊢
  rw [List.cons_append] at hsign ⊢
  rw [read?, hname, if_neg Bool.false_ne_true, if_neg hdigit, if_neg hdouble, if_neg hsingle,
    hsign]
  simp

/-- A token is read back from its spelling, unless the text behind it carries it on. -/
theorem read?_spell {token : Token} (h : token.Plain) (breaks : Bool) {rest : List Char}
    (hrest : StopsRun token.continues rest) :
    read? (token.spell breaks ++ rest) = some ⟨token, token.spell breaks, rest⟩ := by
  cases token with
  | name ident => exact read?_name h hrest
  | literal value =>
      cases value with
      | text s => exact read?_text breaks s rest
      | number a =>
          cases a with
          | float x => exact absurd h id
          | int n =>
              obtain ⟨hnonneg, hsize⟩ := h
              have hread := read?_number hsize hrest
              rw [Int.toNat_of_nonneg hnonneg] at hread
              exact hread
  | unusable cause => exact absurd h id
  | operator op => exact read?_sign breaks rfl hrest
  | bang => exact read?_sign breaks rfl hrest
  | leftParen => exact read?_sign breaks rfl hrest
  | rightParen => exact read?_sign breaks rfl hrest
  | comma => exact read?_sign breaks rfl hrest

end Token

end ToyC
