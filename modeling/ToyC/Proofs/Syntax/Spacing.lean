import ToyC.Proofs.Syntax.Spelling

/-!
Words with gaps between them. Any run of gap characters may stand in front of a
word, also none. For the tokens of an expression this never joins two of them:
a token where an operand ends is followed by a sign, and a token where an operand
must follow never by an equals sign.
-/

namespace ToyC

/-- A text that writes words in order, each behind a gap. -/
inductive Spaced (gap : Char → Bool) : List (List Char) → List Char → Prop
  | nil : Spaced gap [] []
  | cons {space word text : List Char} {words : List (List Char)}
      (hspace : ∀ c ∈ space, gap c = true) (rest : Spaced gap words text) :
      Spaced gap (word :: words) (space ++ word ++ text)

theorem Spaced.mono {gap wider : Char → Bool} {words : List (List Char)} {text : List Char}
    (h : Spaced gap words text) (himp : ∀ c, gap c = true → wider c = true) :
    Spaced wider words text := by
  induction h with
  | nil => exact nil
  | cons hspace rest ih => exact cons (fun c hc => himp c (hspace c hc)) ih

/-- More gap may stand in front of a text that has a word. -/
theorem Spaced.front {gap : Char → Bool} {words : List (List Char)} {text before : List Char}
    (h : Spaced gap words text) (hne : words ≠ []) (hbefore : ∀ c ∈ before, gap c = true) :
    Spaced gap words (before ++ text) := by
  cases h with
  | nil => exact absurd rfl hne
  | @cons space word text words hspace rest =>
      have hboth : ∀ c ∈ before ++ space, gap c = true := by
        intro c hc
        rcases List.mem_append.mp hc with hmem | hmem
        · exact hbefore c hmem
        · exact hspace c hmem
      have hfront : Spaced gap (word :: words) (before ++ space ++ word ++ text) :=
        Spaced.cons hboth rest
      rwa [List.append_assoc before, List.append_assoc before] at hfront

theorem Spaced.append_inv {gap : Char → Bool} {front back : List (List Char)} {text : List Char}
    (h : Spaced gap (front ++ back) text) :
    ∃ first second, text = first ++ second ∧ Spaced gap front first ∧ Spaced gap back second := by
  induction front generalizing text with
  | nil => exact ⟨[], text, rfl, nil, h⟩
  | cons word front ih =>
      rw [List.cons_append] at h
      cases h with
      | @cons space _ more _ hspace rest =>
          obtain ⟨first, second, rfl, hfirst, hsecond⟩ := ih rest
          refine ⟨space ++ word ++ first, second, ?_, cons hspace hfirst, hsecond⟩
          rw [List.append_assoc (space ++ word)]

theorem Spaced.append {gap : Char → Bool} {front back : List (List Char)}
    {first second : List Char} (hfront : Spaced gap front first)
    (hback : Spaced gap back second) : Spaced gap (front ++ back) (first ++ second) := by
  induction hfront with
  | nil => exact hback
  | cons hspace _ ih =>
      rw [List.append_assoc]
      exact cons hspace ih

/-- Words may stand without gaps. -/
theorem Spaced.flatten (gap : Char → Bool) (words : List (List Char)) :
    Spaced gap words words.flatten := by
  induction words with
  | nil => exact Spaced.nil
  | cons word words ih =>
      have hcons : Spaced gap (word :: words) ([] ++ word ++ words.flatten) :=
        Spaced.cons (List.forall_mem_nil _) ih
      rwa [List.nil_append] at hcons

/-- The text of words behind the gaps of a list. -/
theorem Spaced.of_gaps {gap : Char → Bool} {gaps words : List (List Char)}
    (hgaps : ∀ space ∈ gaps, ∀ c ∈ space, gap c = true) (hlength : gaps.length = words.length) :
    Spaced gap words ((gaps.zip words).flatMap fun pair => pair.1 ++ pair.2) := by
  induction gaps generalizing words with
  | nil =>
      rw [List.length_nil] at hlength
      rw [List.eq_nil_of_length_eq_zero hlength.symm]
      exact Spaced.nil
  | cons space gaps ih =>
      cases words with
      | nil => cases hlength
      | cons word words =>
          rw [List.zip_cons_cons, List.flatMap_cons]
          have hrest := ih (fun other hother => hgaps other (List.mem_cons_of_mem _ hother))
            (Nat.succ.inj hlength)
          exact Spaced.cons (hgaps space List.mem_cons_self) hrest

namespace Token

open Text (isBlank isDigit StopsRun)

/-- Tokens behind which an operand has ended. -/
def closes : Token → Bool
  | .name _ | .literal _ | .rightParen => true
  | _ => false

/-- Tokens that may stand where an operand has ended. -/
def follows : Token → Bool
  | .operator _ | .leftParen | .rightParen | .comma => true
  | _ => false

/-- Tokens that may stand where an operand must follow; the closing parenthesis ends a call
without arguments. -/
def opens : Token → Bool
  | .name _ | .literal _ | .bang | .leftParen | .rightParen | .operator (.arith .sub) => true
  | _ => false

/-- Tokens that may stand in this order. The flags say whether an operand has ended before
the first token and behind the last. -/
inductive Flow : Bool → List Token → Bool → Prop
  | nil (ended : Bool) : Flow ended [] ended
  | cons {ended last : Bool} {token : Token} {tokens : List Token} (hplain : token.Plain)
      (hfits : if ended then token.follows = true else token.opens = true)
      (rest : Flow token.closes tokens last) : Flow ended (token :: tokens) last

theorem Flow.append {first middle last : Bool} {front back : List Token}
    (hfront : Flow first front middle) (hback : Flow middle back last) :
    Flow first (front ++ back) last := by
  induction hfront with
  | nil ended => exact hback
  | cons hplain hfits rest ih => exact Flow.cons hplain hfits (ih hback)

theorem Flow.plain {first last : Bool} {tokens : List Token} (h : Flow first tokens last) :
    ∀ token ∈ tokens, token.Plain := by
  induction h with
  | nil ended => intro token htoken; cases htoken
  | cons hplain hfits rest ih =>
      intro token htoken
      rcases List.mem_cons.mp htoken with rfl | hrest
      · exact hplain
      · exact ih token hrest

/-- Where an operand has ended, the last token ended it. -/
theorem Flow.last {first last : Bool} {tokens : List Token} (h : Flow first tokens last)
    (hlast : last = true) (hne : tokens ≠ []) :
    ∃ front token, tokens = front ++ [token] ∧ token.closes = true := by
  induction h with
  | nil ended => exact absurd rfl hne
  | @cons _ _ token tokens hplain hfits rest ih =>
      by_cases hmore : tokens = []
      · subst hmore
        cases rest
        exact ⟨[], token, rfl, hlast⟩
      · obtain ⟨front, final, rfl, hfinal⟩ := ih hlast hmore
        exact ⟨token :: front, final, rfl, hfinal⟩

/-- A token that is an operand by itself. -/
theorem Flow.single {token : Token} (hplain : token.Plain) (hopens : token.opens = true)
    (hcloses : token.closes = true) : Flow false [token] true := by
  refine @Flow.cons false _ _ _ hplain hopens ?_
  rw [hcloses]
  exact Flow.nil true

theorem head_of_follows {token : Token} (h : token.follows = true) (breaks : Bool) :
    ∃ c more, token.spell breaks = c :: more ∧ isNameRest c = false ∧ isDigit c = false ∧
      c ≠ '.' := by
  cases token with
  | operator op =>
      cases op with
      | or => exact ⟨'|', ['|'], rfl, by decide⟩
      | and => exact ⟨'&', ['&'], rfl, by decide⟩
      | arith op => cases op <;> exact ⟨_, [], rfl, by decide⟩
      | compare test => cases test <;> exact ⟨_, _, rfl, by decide⟩
  | leftParen => exact ⟨'(', [], rfl, by decide⟩
  | rightParen => exact ⟨')', [], rfl, by decide⟩
  | comma => exact ⟨',', [], rfl, by decide⟩
  | bang => cases h
  | name ident => cases h
  | literal value => cases h
  | unusable cause => cases h

/-- Names and numbers start with a character of names, and the other tokens that may open an
operand with a sign of their own. -/
theorem head_of_opens {token : Token} (h : token.opens = true) (hplain : token.Plain)
    (breaks : Bool) :
    ∃ c more, token.spell breaks = c :: more ∧ c ≠ '=' ∧ isBlank c = false := by
  have hword : ∀ {word : List Char}, word ≠ [] → (∀ c ∈ word, isNameRest c = true) →
      ∃ c more, word = c :: more ∧ c ≠ '=' ∧ isBlank c = false := by
    intro word hne hchars
    obtain ⟨c, more, rfl⟩ := List.exists_cons_of_ne_nil hne
    have hc := hchars c List.mem_cons_self
    exact ⟨c, more, rfl, ne_of_isNameRest hc (by decide), isBlank_of_isNameRest hc⟩
  cases token with
  | operator op =>
      cases op with
      | arith op => cases op <;> first | exact ⟨'-', [], rfl, by decide⟩ | cases h
      | or => cases h
      | and => cases h
      | compare test => cases h
  | leftParen => exact ⟨'(', [], rfl, by decide⟩
  | rightParen => exact ⟨')', [], rfl, by decide⟩
  | bang => exact ⟨'!', [], rfl, by decide⟩
  | comma => cases h
  | unusable cause => cases h
  | name ident =>
      apply hword _ (isNameRest_of_isName hplain)
      intro hnil
      change isName ident.toList = true at hplain
      rw [hnil] at hplain
      cases hplain
  | literal value =>
      cases value with
      | text s => exact ⟨'"', _, rfl, by decide⟩
      | number a =>
          cases a with
          | float x => exact absurd hplain id
          | int n =>
              apply hword Nat.toDigits_ne_nil
              intro c hc
              exact isNameRest_of_isDigit
                (Nat.isDigit_of_mem_toDigits (by decide) (by decide) hc)

theorem spell_ne_nil {token : Token} (h : token.Plain) (breaks : Bool) :
    token.spell breaks ≠ [] := by
  by_cases hopens : token.opens = true
  · obtain ⟨c, more, hspell, -⟩ := head_of_opens hopens h breaks
    simp [hspell]
  · by_cases hfollows : token.follows = true
    · obtain ⟨c, more, hspell, -⟩ := head_of_follows hfollows breaks
      simp [hspell]
    · cases token with
      | operator op => exact absurd rfl hfollows
      | comma => exact absurd rfl hfollows
      | unusable cause => exact absurd h id
      | _ => exact absurd rfl hopens

/-- A token is not carried on by one that may stand behind it. -/
theorem stops_of_flow {first second : Token} (hplain : second.Plain)
    (hfits : if first.closes then second.follows = true else second.opens = true)
    (breaks : Bool) (rest : List Char) :
    StopsRun first.continues (second.spell breaks ++ rest) := by
  split at hfits
  · rename_i hcloses
    obtain ⟨c, more, hspell, hname, hdigit, hdot⟩ := head_of_follows hfits breaks
    rw [hspell]
    apply StopsRun.cons
    cases first with
    | name ident => exact hname
    | literal value => cases value <;> simp [continues, hname, hdigit, hdot]
    | rightParen => rfl
    | _ => cases hcloses
  · rename_i hcloses
    obtain ⟨c, more, hspell, hne, -⟩ := head_of_opens hfits hplain breaks
    rw [hspell]
    apply StopsRun.cons
    cases first with
    | operator op =>
        cases op with
        | compare test => cases test <;> simp [continues, hne]
        | _ => rfl
    | bang => simp [continues, hne]
    | unusable cause => rfl
    | leftParen => rfl
    | comma => rfl
    | _ => exact absurd rfl hcloses

theorem continues_gap (token : Token) {c : Char} (h : isGap c = true) :
    token.continues c = false := by
  have hcases : c = ' ' ∨ c = '\t' ∨ c = '\n' ∨ c = '\r' := by
    simpa [isGap, or_assoc] using h
  rcases hcases with rfl | rfl | rfl | rfl <;>
    cases token with
    | operator op =>
        cases op with
        | compare test => cases test <;> rfl
        | _ => rfl
    | literal value => cases value <;> rfl
    | _ => rfl

end Token

/-! ### The tokens of a text -/

theorem lexemes?_gap {space : List Char} (h : ∀ c ∈ space, Token.isGap c = true)
    (pos : Position) (text : List Char) :
    lexemes? pos (space ++ text) = lexemes? (pos.advance space) text := by
  induction space generalizing pos with
  | nil => rfl
  | cons c space ih =>
      rw [List.cons_append, lexemes?, if_pos (h c List.mem_cons_self),
        ih fun d hd => h d (List.mem_cons_of_mem _ hd)]
      rfl

theorem read?_gap {c : Char} (h : Token.isGap c = true) (text : List Char) :
    Token.read? (c :: text) = none := by
  have hcases : c = ' ' ∨ c = '\t' ∨ c = '\n' ∨ c = '\r' := by
    simpa [Token.isGap, or_assoc] using h
  rcases hcases with rfl | rfl | rfl | rfl <;> rfl

theorem lexemes?_spell {token : Token} (h : token.Plain) (breaks : Bool) (pos : Position)
    {rest : List Char} (hrest : Text.StopsRun token.continues rest) :
    lexemes? pos (token.spell breaks ++ rest) =
      (lexemes? (pos.advance (token.spell breaks)) rest).map (⟨token, pos⟩ :: ·) := by
  have hread := Token.read?_spell h breaks hrest
  cases hspell : token.spell breaks with
  | nil => exact absurd hspell (Token.spell_ne_nil h breaks)
  | cons c more =>
      rw [hspell, List.cons_append] at hread
      have hgap : ¬Token.isGap c = true := by
        intro hc
        rw [read?_gap hc] at hread
        cases hread
      rw [List.cons_append, lexemes?, if_neg hgap]
      split
      · rename_i hnone
        rw [hread] at hnone
        cases hnone
      · rename_i reading hsome
        rw [hread] at hsome
        cases hsome
        rfl

/-- What comes behind a token in a spaced text does not carry it on. -/
theorem stops_spaced {token : Token} {tokens : List Token} {last breaks : Bool}
    (hflow : Token.Flow token.closes tokens last) {text tail : List Char}
    (hspaced : Spaced Token.isGap (tokens.map (Token.spell breaks)) text)
    (htail : ∀ c ∈ tail, Token.isGap c = true) :
    Text.StopsRun token.continues (text ++ tail) := by
  have hgap : ∀ {space : List Char} (rest : List Char), space ≠ [] →
      (∀ c ∈ space, Token.isGap c = true) → Text.StopsRun token.continues (space ++ rest) := by
    intro space rest hne hspace
    cases space with
    | nil => exact absurd rfl hne
    | cons c space =>
        exact Text.StopsRun.cons (token.continues_gap (hspace c List.mem_cons_self)) _
  cases hflow with
  | nil =>
      cases hspaced
      by_cases hne : tail = []
      · subst hne
        exact Text.StopsRun.nil _
      · have hstop := hgap [] hne htail
        rwa [List.append_nil] at hstop
  | cons hplain hfits hmore =>
      rw [List.map_cons] at hspaced
      cases hspaced with
      | @cons space _ rest _ hspace hrest =>
          by_cases hne : space = []
          · subst hne
            rw [List.nil_append, List.append_assoc]
            exact Token.stops_of_flow hplain hfits breaks _
          · rw [List.append_assoc, List.append_assoc]
            exact hgap _ hne hspace

/-- Tokens that may stand in order are the tokens of every text that writes them, whatever gaps
stand between them. -/
theorem lexemes?_spaced {first last breaks : Bool} {tokens : List Token}
    (hflow : Token.Flow first tokens last) {text tail : List Char}
    (hspaced : Spaced Token.isGap (tokens.map (Token.spell breaks)) text)
    (htail : ∀ c ∈ tail, Token.isGap c = true) (pos : Position) :
    ∃ lexemes, lexemes? pos (text ++ tail) = some lexemes ∧
      lexemes.map Lexeme.token = tokens := by
  induction hflow generalizing text pos with
  | nil ended =>
      cases hspaced
      have hnone := lexemes?_gap htail pos []
      rw [List.append_nil] at hnone
      exact ⟨[], by rw [List.nil_append, hnone, lexemes?], rfl⟩
  | @cons _ _ token tokens hplain hfits hmore ih =>
      rw [List.map_cons] at hspaced
      cases hspaced with
      | @cons space _ rest _ hspace hrest =>
          have hstop := stops_spaced hmore hrest htail
          obtain ⟨lexemes, hlexemes, hmap⟩ :=
            ih hrest ((pos.advance space).advance (token.spell breaks))
          refine ⟨⟨token, pos.advance space⟩ :: lexemes, ?_, by rw [List.map_cons, hmap]⟩
          rw [List.append_assoc, List.append_assoc, lexemes?_gap hspace,
            lexemes?_spell hplain breaks _ hstop, hlexemes]
          rfl

end ToyC
