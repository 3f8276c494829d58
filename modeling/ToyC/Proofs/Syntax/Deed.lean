import ToyC.Proofs.Syntax.Type
import ToyC.Syntax.Block
import Mathlib.Data.List.Forall2

/-!
Writing statements without statements inside. Each is one line, up to the
semicolon that ends it; in the header of a loop it stands without one. Spaces may
stand between the words of the line and must stand where two words would run into
each other: behind a type, and behind the word for returning where the value
starts with a word.
-/

namespace ToyC

open Source (Walk Separated IsPart isSpace isBracket isSeparator isBlank_of_isSpace)
open Text (isBlank isWord Trimmed StopsRun)
open Shape (IsType Leads typeWords)

/-- Words that a name at the start of a statement may not be. -/
def reservedWords : List (List Char) :=
  typeWords ++ ["return".toList, "printf".toList, "if".toList, "else".toList, "while".toList,
    "for".toList, "break".toList, "continue".toList]

/-- The name of a variable or function. -/
structure IsIdent (ident : String) : Prop where
  isName : Token.isName ident.toList = true
  free : ident.toList ∉ reservedWords

/-- The inside of a string literal, with its quotes. -/
def quoteText (s : String) : List Char :=
  '"' :: (Source.escape true s.toList ++ ['"'])

/-- A text that writes a declared name and its value. -/
inductive Declarator.Written : Declarator → List Char → Prop
  | bare {name : String} (hname : IsIdent name) : Written ⟨name, none⟩ name.toList
  | valued {name : String} {e : Expr} {before behind text : List Char} (hname : IsIdent name)
      (hbefore : ∀ c ∈ before, isSpace c = true) (hbehind : ∀ c ∈ behind, isSpace c = true)
      (he : e.Inline text) :
      Written ⟨name, some e⟩ (name.toList ++ (before ++ '=' :: (behind ++ text)))

/-- A text that writes a change, behind the name that is changed. -/
inductive Change.Written : Change → List Char → Prop
  | set {e : Expr} {space text : List Char} (hspace : ∀ c ∈ space, isSpace c = true)
      (he : e.Inline text) : Written (.set e) ('=' :: (space ++ text))
  | update {op : ArithOp} {e : Expr} {space text : List Char}
      (hspace : ∀ c ∈ space, isSpace c = true) (he : e.Inline text) :
      Written (.update op e) (op.symbol.toList ++ '=' :: (space ++ text))
  | increment : Written .increment ['+', '+']
  | decrement : Written .decrement ['-', '-']

/-- A text that writes a statement without statements inside, up to its semicolon. -/
inductive Deed.Written : Deed → List Char → Prop
  | returnsNothing : Written (.returns none) "return".toList
  | returns {e : Expr} {space text : List Char} (hspace : ∀ c ∈ space, isSpace c = true)
      (he : e.Inline text) (hapart : space = [] → StopsRun isWord text) :
      Written (.returns (some e)) ("return".toList ++ (space ++ text))
  | prints {fmt : String} {args : List Expr} {texts : List (List Char)}
      {space inside : List Char} (hfmt : ∀ c ∈ fmt.toList, isBracket c = false)
      (hargs : List.Forall₂ Expr.Inline args texts) (hspace : ∀ c ∈ space, isSpace c = true)
      (hinside : Separated ',' (quoteText fmt :: texts) inside) :
      Written (.prints fmt args) ("printf".toList ++ (space ++ '(' :: (inside ++ [')'])))
  | declares {type : String} {declarators : List Declarator} {texts : List (List Char)}
      {space text : List Char} (htype : IsType type.toList)
      (hdeclarators : List.Forall₂ Declarator.Written declarators texts)
      (hspace : ∀ c ∈ space, isSpace c = true) (hne : space ≠ [])
      (htext : Separated ',' texts text) (htrim : Trimmed text) :
      Written (.declares type declarators) (type.toList ++ (space ++ text))
  | assigns {target : String} {change : Change} {space text : List Char}
      (htarget : IsIdent target) (hspace : ∀ c ∈ space, isSpace c = true)
      (hchange : change.Written text) :
      Written (.assigns target change) (target.toList ++ (space ++ text))
  | evaluates {pos : Position} {func : String} {args : List Expr} {text : List Char}
      (hfunc : IsIdent func) (hcall : (Expr.call pos func args).Inline text) :
      Written (.evaluates (.call pos func args)) text
  | breaks : Written .breaks "break".toList
  | continues : Written .continues "continue".toList

/-! ### Texts of statements -/

theorem IsIdent.chars {ident : String} (h : IsIdent ident) :
    ∀ c ∈ ident.toList, Token.isNameRest c = true :=
  Token.isNameRest_of_isName h.isName

theorem IsIdent.ne_nil {ident : String} (h : IsIdent ident) : ident.toList ≠ [] := by
  intro hnil
  have hname := h.isName
  rw [hnil] at hname
  cases hname

theorem IsIdent.leads {ident : String} (h : IsIdent ident) {rest : List Char}
    (hrest : StopsRun isWord rest) : Leads ident.toList (ident.toList ++ rest) :=
  ⟨h.chars, rest, rfl, hrest⟩

theorem IsIdent.not_typeWord {ident : String} (h : IsIdent ident) : ident.toList ∉ typeWords :=
  fun hmem => h.free (List.mem_append_left _ hmem)

/-- A reserved word that is none of a name's. -/
theorem IsIdent.ne {ident : String} (h : IsIdent ident) {word : List Char}
    (hword : word ∈ reservedWords) : word ≠ ident.toList :=
  fun heq => h.free (heq ▸ hword)

theorem exists_of_forall₂ {α β : Type} {r : α → β → Prop} {xs : List α} {ys : List β}
    (h : List.Forall₂ r xs ys) : ∀ y ∈ ys, ∃ x, r x y := by
  induction h with
  | nil => intro y hy; cases hy
  | @cons x z xs ys hxz rest ih =>
      intro y hy
      rcases List.mem_cons.mp hy with rfl | hmem
      · exact ⟨x, hxz⟩
      · exact ih y hmem

theorem quoteText_walk {sep : Char → Bool} {s : String} (h : ∀ c ∈ s.toList, isBracket c = false)
    (depth : Nat) : Walk sep depth (quoteText s) depth :=
  Walk.literal h (Walk.nil depth)

theorem quoteText_trimmed (s : String) : Trimmed (quoteText s) :=
  ⟨⟨'"', _, rfl, by decide⟩, ⟨'"' :: Source.escape true s.toList, '"', rfl, by decide⟩⟩

theorem Expr.Inline.walk_of {e : Expr} {text : List Char} (h : e.Inline text) {sep : Char → Bool}
    (hsep : ∀ c, sep c = true → isSeparator c = true) : Walk sep 0 text 0 :=
  h.walk.mono hsep

theorem walk_equals {sep : Char → Bool} (hsep : ∀ c, sep c = true → isSeparator c = true)
    {space text : List Char} (hspace : ∀ c ∈ space, isSpace c = true)
    (htext : Walk sep 0 text 0) : Walk sep 0 ('=' :: (space ++ text)) 0 := by
  have hequals : sep '=' = false := Source.not_sep hsep rfl
  exact Walk.between hsep
    (Walk.plain rfl rfl (by decide) (fun _ => hequals) (Walk.nil 0)) hspace htext

theorem Declarator.Written.walk {d : Declarator} {text : List Char} (h : d.Written text)
    {sep : Char → Bool} (hsep : ∀ c, sep c = true → isSeparator c = true) :
    Walk sep 0 text 0 := by
  cases h with
  | bare hname => exact Token.walk_word hsep hname.chars 0
  | valued hname hbefore hbehind he =>
      exact Walk.between hsep (Token.walk_word hsep hname.chars 0) hbefore
        (walk_equals hsep hbehind (he.walk_of hsep))

theorem Declarator.Written.trimmed {d : Declarator} {text : List Char} (h : d.Written text) :
    Trimmed text := by
  cases h with
  | bare hname => exact Token.trimmed_word hname.chars hname.ne_nil
  | @valued name e before behind text hname hbefore hbehind he =>
      have hfront := Token.trimmed_word hname.chars hname.ne_nil
      have hbetween := hfront.between (before ++ '=' :: behind) he.trimmed
      rwa [List.append_assoc, List.cons_append] at hbetween

theorem Change.Written.walk {change : Change} {text : List Char} (h : change.Written text)
    {sep : Char → Bool} (hsep : ∀ c, sep c = true → isSeparator c = true) :
    Walk sep 0 text 0 := by
  cases h with
  | set hspace he => exact walk_equals hsep hspace (he.walk_of hsep)
  | @update op e space text hspace he =>
      have hrest := walk_equals hsep hspace (he.walk_of hsep)
      cases op with
      | _ => exact Walk.plain rfl rfl (by decide) (fun _ => Source.not_sep hsep rfl) hrest
  | increment =>
      apply Walk.run
      intro c hc
      simp only [List.mem_cons, List.not_mem_nil, or_false, or_self] at hc
      subst hc
      exact ⟨rfl, rfl, by decide, Source.not_sep hsep rfl⟩
  | decrement =>
      apply Walk.run
      intro c hc
      simp only [List.mem_cons, List.not_mem_nil, or_false, or_self] at hc
      subst hc
      exact ⟨rfl, rfl, by decide, Source.not_sep hsep rfl⟩

theorem Change.Written.trimmed {change : Change} {text : List Char} (h : change.Written text) :
    Trimmed text := by
  cases h with
  | @set e space text hspace he =>
      have hfront : Trimmed ['='] := Trimmed.singleton (by decide)
      exact hfront.between space he.trimmed
  | @update op e space text hspace he =>
      have hfront : Trimmed op.symbol.toList := by
        cases op with
        | _ => exact Trimmed.singleton (by decide)
      exact hfront.between ('=' :: space) he.trimmed
  | increment => exact ⟨⟨'+', ['+'], rfl, by decide⟩, ⟨['+'], '+', rfl, by decide⟩⟩
  | decrement => exact ⟨⟨'-', ['-'], rfl, by decide⟩, ⟨['-'], '-', rfl, by decide⟩⟩

/-- A change starts with a sign, so the name in front of it ends there. -/
theorem Change.Written.stops {change : Change} {text : List Char} (h : change.Written text)
    (tail : List Char) : StopsRun isWord (text ++ tail) := by
  cases h with
  | set hspace he => exact StopsRun.cons (by decide) _
  | @update op e space text hspace he =>
      cases op with
      | _ => exact StopsRun.cons (by decide) _
  | increment => exact StopsRun.cons (by decide) _
  | decrement => exact StopsRun.cons (by decide) _

theorem Shape.IsType.walk {text : List Char} (h : IsType text) {sep : Char → Bool}
    (hsep : ∀ c, sep c = true → isSeparator c = true) : Walk sep 0 text 0 := by
  have hplain : ∀ {text : List Char}, Shape.IsPlainType text → Walk sep 0 text 0 := by
    intro text htext
    induction htext with
    | @base word hword =>
        have hmem : word ∈ typeWords := List.mem_cons_of_mem _ (List.mem_append_right _ hword)
        exact Token.walk_word hsep (Shape.typeWords_chars word hmem) 0
    | @modified word space text hword hspace hne rest ih =>
        have hmem : word ∈ typeWords := List.mem_cons_of_mem _ (List.mem_append_left _ hword)
        exact Walk.between hsep (Token.walk_word hsep (Shape.typeWords_chars word hmem) 0) hspace ih
  cases h with
  | plain h => exact hplain h
  | constant hspace hne h =>
      exact Walk.between hsep (Token.walk_word hsep (by decide) 0) hspace (hplain h)

theorem Shape.IsType.trimmed {text : List Char} (h : IsType text) : Trimmed text := by
  have hword : ∀ {word : List Char}, word ∈ typeWords → Trimmed word := by
    intro word hmem
    have hwords : ∀ word ∈ typeWords, word ≠ [] := by decide
    exact Token.trimmed_word (Shape.typeWords_chars word hmem) (hwords word hmem)
  have hplain : ∀ {text : List Char}, Shape.IsPlainType text → Trimmed text := by
    intro text htext
    induction htext with
    | base hmem => exact hword (List.mem_cons_of_mem _ (List.mem_append_right _ hmem))
    | modified hmem hspace hne rest ih =>
        exact (hword (List.mem_cons_of_mem _ (List.mem_append_left _ hmem))).between _ ih
  cases h with
  | plain h => exact hplain h
  | constant hspace hne h => exact (hword List.mem_cons_self).between _ (hplain h)

namespace Expr

theorem nextTokens_last (args : List Expr) : ∃ front, nextTokens args = front ++ [.rightParen] := by
  induction args with
  | nil => exact ⟨[], rfl⟩
  | cons e rest ih =>
      obtain ⟨front, hfront⟩ := ih
      refine ⟨.comma :: (tokens 0 e ++ front), ?_⟩
      rw [nextTokens, hfront]
      simp

theorem argTokens_last (args : List Expr) : ∃ front, argTokens args = front ++ [.rightParen] := by
  cases args with
  | nil => exact ⟨[], rfl⟩
  | cons e rest =>
      obtain ⟨front, hfront⟩ := nextTokens_last rest
      refine ⟨tokens 0 e ++ front, ?_⟩
      rw [argTokens, hfront, List.append_assoc]

/-- The text of a call: the name, an opening parenthesis, and a closing one at the end. -/
theorem Inline.call {pos : Position} {func : String} {args : List Expr} {text : List Char}
    (h : (Expr.call pos func args).Inline text) :
    ∃ space inside, text = func.toList ++ (space ++ '(' :: (inside ++ [')'])) ∧
      ∀ c ∈ space, isSpace c = true := by
  have hspaced := h.spaced
  have hstarts := h.starts
  obtain ⟨front, hfront⟩ := argTokens_last args
  rw [tokens, hfront, List.map_cons, List.map_cons] at hspaced
  cases hspaced with
  | @cons before _ more _ hbefore hmore =>
      cases hmore with
      | @cons space _ rest _ hspace hrest =>
          rw [List.map_append] at hrest
          obtain ⟨inside, last, rfl, -, hlast⟩ := hrest.append_inv
          cases hlast with
          | @cons gap _ nothing _ hgap hnil =>
              cases hnil
              rw [List.append_assoc] at hstarts
              rw [Source.eq_nil_of_stops hbefore hstarts]
              refine ⟨space, inside ++ gap, ?_, hspace⟩
              simp [Token.spell]

end Expr

/-- What stands between the parentheses of printing is not cut either. -/
theorem printed_walk {fmt : String} {args : List Expr} {texts : List (List Char)}
    {inside : List Char} (hfmt : ∀ c ∈ fmt.toList, isBracket c = false)
    (hargs : List.Forall₂ Expr.Inline args texts)
    (hinside : Separated ',' (quoteText fmt :: texts) inside) :
    Walk (· == ';') 0 inside 0 := by
  apply hinside.walk rfl Source.isSeparator_of_semicolon rfl
  intro part hpart
  rcases List.mem_cons.mp hpart with rfl | hmem
  · exact quoteText_walk hfmt 0
  · obtain ⟨e, he⟩ := exists_of_forall₂ hargs part hmem
    exact he.walk_of Source.isSeparator_of_semicolon

theorem declared_walk {declarators : List Declarator} {texts : List (List Char)}
    {text : List Char} (hdeclarators : List.Forall₂ Declarator.Written declarators texts)
    (htext : Separated ',' texts text) : Walk (· == ';') 0 text 0 := by
  apply htext.walk rfl Source.isSeparator_of_semicolon rfl
  intro part hpart
  obtain ⟨declarator, hdeclarator⟩ := exists_of_forall₂ hdeclarators part hpart
  exact hdeclarator.walk Source.isSeparator_of_semicolon

namespace Deed.Written

variable {d : Deed} {text : List Char}

/-- The text of a statement is not cut. -/
theorem walk (h : d.Written text) : Walk (· == ';') 0 text 0 := by
  have hword : ∀ {word : List Char}, (∀ c ∈ word, Token.isNameRest c = true) →
      Walk (· == ';') 0 word 0 := fun hchars =>
    Token.walk_word Source.isSeparator_of_semicolon hchars 0
  cases h with
  | returnsNothing => exact hword (by decide)
  | returns hspace he hapart =>
      exact Walk.between Source.isSeparator_of_semicolon (hword (by decide)) hspace
        (he.walk_of Source.isSeparator_of_semicolon)
  | @prints fmt args texts space inside hfmt hargs hspace hinside =>
      have hinner := printed_walk hfmt hargs hinside
      have hparens : Walk (· == ';') 0 ('(' :: (inside ++ [')'])) 0 :=
        Walk.opening ((hinner.deeper _).append (Walk.closing (Walk.nil 0)))
      exact Walk.between Source.isSeparator_of_semicolon (hword (by decide)) hspace hparens
  | @declares type declarators texts space text htype hdeclarators hspace hne htext htrim =>
      have hlist := declared_walk hdeclarators htext
      exact Walk.between Source.isSeparator_of_semicolon
        (htype.walk Source.isSeparator_of_semicolon) hspace hlist
  | assigns htarget hspace hchange =>
      exact Walk.between Source.isSeparator_of_semicolon (hword htarget.chars) hspace
        (hchange.walk Source.isSeparator_of_semicolon)
  | evaluates hfunc hcall => exact hcall.walk_of Source.isSeparator_of_semicolon
  | breaks => exact hword (by decide)
  | continues => exact hword (by decide)

theorem trimmed (h : d.Written text) : Trimmed text := by
  cases h with
  | returnsNothing => exact Token.trimmed_word (by decide) (by decide)
  | @returns e space text hspace he hapart =>
      have hword : Trimmed "return".toList := Token.trimmed_word (by decide) (by decide)
      exact hword.between space he.trimmed
  | @prints fmt args texts space inside hfmt hargs hspace hinside =>
      have hword : Trimmed "printf".toList := Token.trimmed_word (by decide) (by decide)
      have hclose : Trimmed [')'] := Trimmed.singleton (by decide)
      have hbetween := hword.between (space ++ '(' :: inside) hclose
      rwa [List.append_assoc, List.cons_append] at hbetween
  | declares htype hdeclarators hspace hne htext htrim => exact htype.trimmed.between _ htrim
  | assigns htarget hspace hchange =>
      exact (Token.trimmed_word htarget.chars htarget.ne_nil).between _ hchange.trimmed
  | evaluates hfunc hcall => exact hcall.trimmed
  | breaks => exact Token.trimmed_word (by decide) (by decide)
  | continues => exact Token.trimmed_word (by decide) (by decide)

/-- The text of a statement starts with a word that starts no other construct. -/
theorem leads (h : d.Written text) {tail : List Char} (htail : StopsRun isWord tail) :
    ∃ word, Leads word (text ++ tail) ∧ "if".toList ≠ word ∧ "while".toList ≠ word ∧
      "for".toList ≠ word ∧ "else".toList ≠ word := by
  have hkeyword : ∀ {word : List Char}, (∀ c ∈ word, Token.isNameRest c = true) →
      ∀ {rest : List Char}, StopsRun isWord rest → Leads word (word ++ rest) :=
    fun hchars _ hrest => ⟨hchars, _, rfl, hrest⟩
  have hident : ∀ {ident : String}, IsIdent ident → "if".toList ≠ ident.toList ∧
      "while".toList ≠ ident.toList ∧ "for".toList ≠ ident.toList ∧
      "else".toList ≠ ident.toList := fun hname =>
    ⟨hname.ne (by decide), hname.ne (by decide), hname.ne (by decide), hname.ne (by decide)⟩
  cases h with
  | returnsNothing =>
      exact ⟨"return".toList, hkeyword (by decide) htail, by decide⟩
  | @returns e space text hspace he hapart =>
      refine ⟨"return".toList, ?_, by decide⟩
      rw [List.append_assoc, List.append_assoc]
      exact hkeyword (by decide) (stops_word_of_space hspace fun hnil =>
        (hapart hnil).append he.trimmed.ne_nil tail)
  | @prints fmt args texts space inside hfmt hargs hspace hinside =>
      refine ⟨"printf".toList, ?_, by decide⟩
      rw [List.append_assoc, List.append_assoc]
      exact hkeyword (by decide) (stops_word_of_space hspace fun _ => StopsRun.cons (by decide) _)
  | @declares type declarators texts space text htype hdeclarators hspace hne htext htrim =>
      obtain ⟨word, hword, hleads⟩ := htype.leads hspace hne (text ++ tail)
      have hdistinct : ∀ word ∈ typeWords, "if".toList ≠ word ∧ "while".toList ≠ word ∧
          "for".toList ≠ word ∧ "else".toList ≠ word := by decide
      refine ⟨word, ?_, hdistinct word hword⟩
      rwa [List.append_assoc, List.append_assoc]
  | @assigns target change space text htarget hspace hchange =>
      refine ⟨target.toList, ?_, hident htarget⟩
      rw [List.append_assoc, List.append_assoc]
      exact htarget.leads (stops_word_of_space hspace fun _ => hchange.stops tail)
  | evaluates hfunc hcall =>
      obtain ⟨space, inside, rfl, hspace⟩ := hcall.call
      refine ⟨_, ?_, hident hfunc⟩
      rw [List.append_assoc, List.append_assoc]
      exact hfunc.leads (stops_word_of_space hspace fun _ => StopsRun.cons (by decide) _)
  | breaks => exact ⟨"break".toList, hkeyword (by decide) htail, by decide⟩
  | continues => exact ⟨"continue".toList, hkeyword (by decide) htail, by decide⟩

end Deed.Written

end ToyC
