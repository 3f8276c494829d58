import ToyC.Proofs.Syntax.Spelling

/-!
The words of the expression grammar as classes of texts, and how a text divides
into words. The classes are stated on their own, word by word, and say nothing
about where a reader stops. What the reader takes off the front of a text is always
a word of the class of its token, so a text that is read to its end divides into
words and gaps, each word at the place that the text before it leads to.
-/

namespace ToyC

namespace Token

open Text (isDigit digitsValue)

/-- The inside of a string literal. A quote stands in it only behind a backslash, and a newline
never right behind one. -/
inductive IsTextBody : List Char → Prop
  | nil : IsTextBody []
  | escaped {c : Char} {body : List Char} (hbreak : c ≠ '\n') (rest : IsTextBody body) :
      IsTextBody ('\\' :: c :: body)
  | plain {c : Char} {body : List Char} (hquote : c ≠ '"') (hescape : c ≠ '\\')
      (rest : IsTextBody body) : IsTextBody (c :: body)

/-- The inside of a character literal. -/
inductive IsCharacterBody : List Char → Prop
  | escaped {c : Char} (hbreak : c ≠ '\n') : IsCharacterBody ['\\', c]
  | plain {c : Char} (hquote : c ≠ '\'') (hescape : c ≠ '\\') : IsCharacterBody [c]

/-- The sign of an exponent, and whether it is negative. -/
inductive IsSign : List Char → Bool → Prop
  | none : IsSign [] false
  | plus : IsSign ['+'] false
  | minus : IsSign ['-'] true

/-- An exponent with its worth; where there is none it is worth zero. -/
inductive IsExponent : List Char → Int → Prop
  | none : IsExponent [] 0
  | some {e : Char} {sign digits : List Char} {negative : Bool} (hletter : e = 'e' ∨ e = 'E')
      (hsign : IsSign sign negative) (hne : digits ≠ [])
      (hdigits : ∀ c ∈ digits, isDigit c = true) :
      IsExponent (e :: sign ++ digits)
        (if negative then -(digitsValue digits : Int) else digitsValue digits)

/-- The words that write a token. A point makes a number a double, and so does an exponent. -/
inductive Spells : Token → List Char → Prop
  | name {ident : List Char} (h : isName ident = true) : Spells (.name (String.ofList ident)) ident
  | integer {digits : List Char} (hne : digits ≠ []) (hdigits : ∀ c ∈ digits, isDigit c = true)
      (hsize : digits.length ≤ maxDigits) :
      Spells (.literal (.number (.int (digitsValue digits)))) digits
  | pointed {whole fraction exponent : List Char} {worth : Int}
      (hne : whole ≠ [] ∨ fraction ≠ []) (hwhole : ∀ c ∈ whole, isDigit c = true)
      (hfraction : ∀ c ∈ fraction, isDigit c = true) (hexponent : IsExponent exponent worth) :
      Spells (.literal (.number (.float
          (Decimal.ofDecimal (digitsValue (whole ++ fraction)) (worth - fraction.length)))))
        (whole ++ '.' :: fraction ++ exponent)
  | scientific {whole exponent : List Char} {worth : Int} (hne : whole ≠ [])
      (hwhole : ∀ c ∈ whole, isDigit c = true) (hexponent : IsExponent exponent worth)
      (hsome : exponent ≠ []) :
      Spells (.literal (.number (.float (Decimal.ofDecimal (digitsValue whole) worth))))
        (whole ++ exponent)
  | text {body : List Char} (h : IsTextBody body) :
      Spells (.literal (.text (String.ofList (Source.unescape body)))) ('"' :: body ++ ['"'])
  | character {body : List Char} {c : Char} (h : IsCharacterBody body)
      (hone : Source.unescape body = [c]) :
      Spells (.literal (.number (.int c.toNat))) ('\'' :: body ++ ['\''])
  | operator (op : BinaryOp) : Spells (.operator op) op.symbol.toList
  | bang : Spells .bang ['!']
  | leftParen : Spells .leftParen ['(']
  | rightParen : Spells .rightParen [')']
  | comma : Spells .comma [',']

/-- Tokens that have a word: all but the literals without a value. -/
def IsUsable (token : Token) : Prop :=
  ∀ cause, token ≠ .unusable cause

/-- No word is empty, and none starts with a hash. -/
theorem Spells.head {token : Token} {word : List Char} (h : token.Spells word) :
    ∃ c rest, word = c :: rest ∧ c ≠ '#' := by
  have hdigit : ∀ {digits : List Char} (more : List Char), digits ≠ [] →
      (∀ c ∈ digits, isDigit c = true) → ∃ c rest, digits ++ more = c :: rest ∧ c ≠ '#' := by
    intro digits more hne hdigits
    obtain ⟨c, rest, rfl⟩ := List.exists_cons_of_ne_nil hne
    refine ⟨c, rest ++ more, rfl, ?_⟩
    rintro rfl
    exact absurd (hdigits '#' List.mem_cons_self) (by decide)
  cases h with
  | name h =>
      cases word with
      | nil => cases h
      | cons c rest =>
          refine ⟨c, rest, rfl, ?_⟩
          rintro rfl
          simp [isName, isNameStart] at h
  | integer hne hdigits hsize => simpa using hdigit [] hne hdigits
  | @pointed whole fraction exponent _ hne hwhole hfraction hexponent =>
      by_cases hempty : whole = []
      · exact ⟨'.', fraction ++ exponent, by simp [hempty], by decide⟩
      · simpa using hdigit ('.' :: fraction ++ exponent) hempty hwhole
  | scientific hne hwhole hexponent hsome => exact hdigit _ hne hwhole
  | text h => exact ⟨'"', _, rfl, by decide⟩
  | character h hone => exact ⟨'\'', _, rfl, by decide⟩
  | operator op =>
      cases op with
      | or => exact ⟨'|', ['|'], rfl, by decide⟩
      | and => exact ⟨'&', ['&'], rfl, by decide⟩
      | arith op => cases op <;> exact ⟨_, [], rfl, by decide⟩
      | compare test => cases test <;> exact ⟨_, _, rfl, by decide⟩
  | bang => exact ⟨'!', [], rfl, by decide⟩
  | leftParen => exact ⟨'(', [], rfl, by decide⟩
  | rightParen => exact ⟨')', [], rfl, by decide⟩
  | comma => exact ⟨',', [], rfl, by decide⟩

/-! ### What the reader takes is a word -/

theorem forall_mem_takeWhile (p : Char → Bool) (text : List Char) :
    ∀ c ∈ text.takeWhile p, p c = true := by
  intro c hc
  exact List.all_eq_true.mp (List.all_takeWhile (l := text) (p := p)) c hc

theorem splitSign_isSign (text : List Char) :
    ∃ negative, IsSign (splitSign text).1 negative := by
  unfold splitSign
  split
  · exact ⟨false, .plus⟩
  · exact ⟨true, .minus⟩
  · exact ⟨false, .none⟩

/-- What is split off is an exponent, with the worth that is read from its characters. -/
theorem splitExponent_isExponent (text : List Char) :
    IsExponent (splitExponent text).1 (exponentValue (splitExponent text).1) := by
  cases text with
  | nil => exact .none
  | cons e rest =>
      simp only [splitExponent]
      split
      · rename_i h
        have hdigits := forall_mem_takeWhile isDigit (splitSign rest).2
        obtain ⟨negative, hsign⟩ := splitSign_isSign rest
        generalize (splitSign rest).1 = sign at hsign ⊢
        generalize (splitSign rest).2.takeWhile isDigit = digits at h hdigits ⊢
        have hexponent := IsExponent.some h.1 hsign h.2 hdigits
        -- The worth that the reader finds depends on the character behind the letter.
        cases hsign with
        | plus => exact hexponent
        | minus => exact hexponent
        | none =>
            cases digits with
            | nil => exact absurd rfl h.2
            | cons d more =>
                have hd := hdigits d List.mem_cons_self
                have hminus : d ≠ '-' := by rintro rfl; revert hd; decide
                have hplus : d ≠ '+' := by rintro rfl; revert hd; decide
                simpa [exponentValue, hminus, hplus] using hexponent
      · exact .none

theorem number?_spells {text : List Char} {r : Reading} (h : number? text = some r)
    (husable : r.token.IsUsable) : Spells r.token r.lexeme := by
  have hwhole := forall_mem_takeWhile isDigit text
  simp only [number?] at h
  split at h
  · rename_i behind _
    have hfraction := forall_mem_takeWhile isDigit behind
    have hexponent := splitExponent_isExponent (behind.dropWhile isDigit)
    split at h
    · cases h
    · rename_i hne
      cases h
      exact Spells.pointed (Decidable.not_and_iff_or_not.mp hne) hwhole hfraction hexponent
  · have hexponent := splitExponent_isExponent (text.dropWhile isDigit)
    split at h
    · cases h
    · rename_i hne
      split at h
      · cases h
        change (integer _).IsUsable at husable
        change Spells (integer _) _
        rw [integer] at husable ⊢
        split at husable
        · exact absurd rfl (husable _)
        · rename_i hsize
          rw [if_neg hsize]
          exact Spells.integer hne hwhole (Nat.not_lt.mp hsize)
      · rename_i exponent rest hnone hsplit
        cases h
        rw [hsplit] at hexponent
        have hscientific := Spells.scientific hne hwhole hexponent hnone
        simpa [double] using hscientific

theorem stringBody?_isTextBody {text body rest : List Char}
    (h : stringBody? text = some (body, rest)) : IsTextBody body := by
  fun_induction stringBody? text generalizing body with
  | case1 => cases h
  | case2 => cases h; exact .nil
  | case3 => cases h
  | case4 c tail hbreak ih =>
      obtain ⟨⟨inner, behind⟩, hinner, heq⟩ := Option.map_eq_some_iff.mp h
      cases heq
      exact .escaped hbreak (ih hinner)
  | case5 => cases h
  | case6 c tail hquote _ hescape ih =>
      obtain ⟨⟨inner, behind⟩, hinner, heq⟩ := Option.map_eq_some_iff.mp h
      cases heq
      exact .plain hquote hescape (ih hinner)

theorem characterBody?_isCharacterBody {text body rest : List Char}
    (h : characterBody? text = some (body, rest)) : IsCharacterBody body := by
  unfold characterBody? at h
  split at h
  · split at h
    · cases h
    · cases h
      exact .escaped ‹_›
  · split at h
    · cases h
    · rename_i hother
      cases h
      exact .plain (fun hquote => hother (Or.inr hquote)) (fun hescape => hother (Or.inl hescape))
  · cases h

theorem character_spells {body : List Char} (h : IsCharacterBody body)
    (husable : (character body).IsUsable) : Spells (character body) ('\'' :: body ++ ['\'']) := by
  rw [character] at husable ⊢
  split at husable
  · rename_i c hone
    exact Spells.character h hone
  · exact absurd rfl (husable _)

theorem sign?_spells {text : List Char} {token : Token} {count : Nat}
    (h : sign? text = some (token, count)) : Spells token (text.take count) := by
  unfold sign? at h
  split at h <;> cases h <;> first
    | exact Spells.operator _
    | exact Spells.bang
    | exact Spells.leftParen
    | exact Spells.rightParen
    | exact Spells.comma

/-- What is read off the front of a text is a word of the token, if that can be used. -/
theorem read?_spells {text : List Char} {r : Reading} (h : read? text = some r)
    (husable : r.token.IsUsable) : Spells r.token r.lexeme := by
  cases text with
  | nil => cases h
  | cons c text =>
      simp only [read?] at h
      split at h
      · rename_i hstart
        cases h
        apply Spells.name
        rw [isName, hstart, Bool.true_and, List.all_eq_true]
        exact forall_mem_takeWhile isNameRest text
      · split at h
        · exact number?_spells h husable
        · split at h
          · obtain ⟨⟨body, rest⟩, hbody, heq⟩ := Option.map_eq_some_iff.mp h
            cases heq
            exact Spells.text (stringBody?_isTextBody hbody)
          · split at h
            · obtain ⟨⟨body, rest⟩, hbody, heq⟩ := Option.map_eq_some_iff.mp h
              cases heq
              exact character_spells (characterBody?_isCharacterBody hbody) husable
            · obtain ⟨⟨token, count⟩, hsign, heq⟩ := Option.map_eq_some_iff.mp h
              cases heq
              exact sign?_spells hsign

end Token

/-! ### Places -/

/-- The place behind a text, from its start: one line more than it has newlines, and one column
more than there are characters behind the last of them. -/
def Position.behind (before : List Char) : Position :=
  { line := before.count '\n' + 1
    column := (before.reverse.takeWhile (· ≠ '\n')).length + 1 }

theorem Position.behind_after (before : List Char) (c : Char) :
    (behind before).after c = behind (before ++ [c]) := by
  by_cases hc : c = '\n'
  · simp [behind, after, hc]
  · simp [behind, after, hc]

theorem Position.behind_advance (before word : List Char) :
    (behind before).advance word = behind (before ++ word) := by
  induction word generalizing before with
  | nil => rw [List.append_nil]; rfl
  | cons c word ih =>
      have hstep := ih (before ++ [c])
      rw [← behind_after, List.append_assoc] at hstep
      exact hstep

/-! ### The division of a text -/

/-- A text divides into words with gaps between them; each token has the place of its first
character in the whole text, of which `before` comes first. -/
inductive Divides : List Char → List Char → List Lexeme → Prop
  | gap {before space : List Char} (hspace : ∀ c ∈ space, Token.isGap c = true) :
      Divides before space []
  | word {before space word text : List Char} {token : Token} {lexemes : List Lexeme}
      (hspace : ∀ c ∈ space, Token.isGap c = true) (htoken : token.Spells word)
      (rest : Divides (before ++ space ++ word) text lexemes) :
      Divides before (space ++ word ++ text) (⟨token, .behind (before ++ space)⟩ :: lexemes)

theorem Divides.wider {before text : List Char} {c : Char} {lexemes : List Lexeme}
    (hc : Token.isGap c = true) (h : Divides (before ++ [c]) text lexemes) :
    Divides before (c :: text) lexemes := by
  have hfront : ∀ {space : List Char}, (∀ d ∈ space, Token.isGap d = true) →
      ∀ d ∈ c :: space, Token.isGap d = true := by
    intro space hspace d hd
    rcases List.mem_cons.mp hd with rfl | hmem
    · exact hc
    · exact hspace d hmem
  cases h with
  | gap hspace => exact .gap (hfront hspace)
  | @word _ space word text token lexemes hspace htoken rest =>
      have hword : Divides (before ++ (c :: space) ++ word) text lexemes := by simpa using rest
      simpa using Divides.word (hfront hspace) htoken hword

/-- A text that is read to its end divides into the tokens read. -/
theorem lexemes?_divides {before text : List Char} {lexemes : List Lexeme}
    (h : lexemes? (.behind before) text = some lexemes)
    (husable : ∀ lexeme ∈ lexemes, lexeme.token.IsUsable) : Divides before text lexemes := by
  generalize hpos : Position.behind before = pos at h
  fun_induction lexemes? pos text generalizing before lexemes with
  | case1 =>
      cases h
      exact .gap (List.forall_mem_nil _)
  | case2 pos c text hgap ih =>
      subst hpos
      exact (ih husable (Position.behind_after before c).symm h).wider hgap
  | case3 => cases h
  | case4 pos c text _ reading hread ih =>
      subst hpos
      obtain ⟨more, hmore, rfl⟩ := Option.map_eq_some_iff.mp h
      have hspells := Token.read?_spells hread (husable _ List.mem_cons_self)
      have hrest : Divides (before ++ [] ++ reading.lexeme) reading.rest more := by
        rw [List.append_nil]
        exact ih (fun lexeme hmem => husable lexeme (List.mem_cons_of_mem _ hmem))
          (Position.behind_advance before reading.lexeme).symm hmore
      have hdivides := Divides.word (List.forall_mem_nil _) hspells hrest
      rw [List.append_nil, List.nil_append, (Token.read?_append hread).1] at hdivides
      exact hdivides

end ToyC
