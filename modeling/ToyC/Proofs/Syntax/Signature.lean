import ToyC.Proofs.Syntax.Layout
import ToyC.Syntax.Program

/-!
Signatures of functions. A parameter is read by its words, so the blanks between
them do not count, and a list of parameters is divided at every comma, which is
right because a signature has parentheses only around the whole list.
-/

namespace ToyC

open Source (Walk Separated joinHead joinHead_cons isSpace isSeparator isBlank_of_isSpace
  isSpace_cases)
open Text (isBlank isWord skipBlanks trim words splitOn Trimmed StopsRun)
open Shape (IsType Leads)

/-! ### Words -/

namespace Text

theorem words_blank {c : Char} (h : isBlank c = true) (rest : List Char) :
    words (c :: rest) = words rest := by
  rw [words, words.go, if_pos h]
  rfl

theorem words_blanks {space : List Char} (h : ∀ c ∈ space, isBlank c = true) (rest : List Char) :
    words (space ++ rest) = words rest := by
  induction space with
  | nil => rfl
  | cons c space ih =>
      rw [List.cons_append, words_blank (h c List.mem_cons_self),
        ih fun d hd => h d (List.mem_cons_of_mem _ hd)]

theorem words_go_word {word : List Char} (h : ∀ c ∈ word, isBlank c = false) (rest : List Char) :
    words.go (word ++ rest) = joinHead word (words.go rest) := by
  induction word with
  | nil => rfl
  | cons c word ih =>
      have hc := h c List.mem_cons_self
      rw [List.cons_append, words.go, hc, if_neg Bool.false_ne_true,
        ih fun d hd => h d (List.mem_cons_of_mem _ hd)]
      rfl

/-- A word ends in front of a blank. -/
theorem words_word {word : List Char} (h : ∀ c ∈ word, isBlank c = false) (hne : word ≠ [])
    {space rest : List Char} (hspace : ∀ c ∈ space, isBlank c = true)
    (hrest : space = [] → rest = []) :
    words (word ++ (space ++ rest)) = word :: words rest := by
  have hword : word.isEmpty = false := by simpa using hne
  have hpieces : ∃ pieces, words.go (space ++ rest) = [] :: pieces ∧
      words (space ++ rest) = pieces.filter (!·.isEmpty) := by
    cases space with
    | nil =>
        rw [hrest rfl]
        exact ⟨[], rfl, rfl⟩
    | cons c space =>
        have hc := hspace c List.mem_cons_self
        refine ⟨words.go (space ++ rest), ?_, ?_⟩
        · rw [List.cons_append, words.go, if_pos hc]
        · rw [List.cons_append, words_blank hc]
          rfl
  obtain ⟨pieces, hgo, hpieces⟩ := hpieces
  rw [words_blanks hspace] at hpieces
  rw [words, words_go_word h, hgo, joinHead_cons, List.append_nil, List.filter_cons, hword,
    hpieces]
  rfl

theorem splitOn_run {separator : Char} {run : List Char} (h : separator ∉ run)
    (rest : List Char) :
    splitOn separator (run ++ rest) = joinHead run (splitOn separator rest) := by
  induction run with
  | nil => rfl
  | cons c run ih =>
      have hne : c ≠ separator := fun heq => h (heq ▸ List.mem_cons_self)
      rw [List.cons_append, splitOn, if_neg hne, ih fun hmem => h (List.mem_cons_of_mem _ hmem)]
      rfl

end Text

/-! ### Writing signatures -/

/-- A text that writes a parameter. -/
inductive Param.Written : Param → List Char → Prop
  | intro {name : String} {space : List Char} (hname : IsIdent name)
      (hspace : ∀ c ∈ space, isSpace c = true) (hne : space ≠ []) :
      Written ⟨"int", name⟩ ("int".toList ++ (space ++ name.toList))

/-- A text that writes the parameters of a function. -/
inductive ParamList.Written : List Param → List Char → Prop
  | empty {space : List Char} (hspace : ∀ c ∈ space, isSpace c = true) : Written [] space
  | void {before behind : List Char} (hbefore : ∀ c ∈ before, isSpace c = true)
      (hbehind : ∀ c ∈ behind, isSpace c = true) :
      Written [] (before ++ "void".toList ++ behind)
  | some {params : List Param} {texts : List (List Char)} {inside : List Char}
      (hparams : List.Forall₂ Param.Written params texts) (h : Separated ',' texts inside) :
      Written params inside

/-- A text that writes a signature, up to the parenthesis that closes the parameters. -/
inductive Signature.Written : Signature → List Char → Prop
  | intro {type name : String} {params : List Param} {space between inside : List Char}
      (htype : IsType type.toList) (hname : IsIdent name)
      (hspace : ∀ c ∈ space, isSpace c = true) (hne : space ≠ [])
      (hbetween : ∀ c ∈ between, isSpace c = true) (hparams : ParamList.Written params inside) :
      Written ⟨type, name, params⟩
        (type.toList ++ (space ++ (name.toList ++ (between ++ '(' :: (inside ++ [')'])))))

/-! ### Reading parameters -/

theorem Param.Written.chars {p : Param} {text : List Char} (h : p.Written text) :
    ∀ c ∈ text, Token.isNameRest c = true ∨ isSpace c = true := by
  cases h with
  | intro hname hspace hne =>
      intro c hc
      simp only [List.mem_append] at hc
      rcases hc with htype | hmem | hmem
      · have hint : ∀ c ∈ "int".toList, Token.isNameRest c = true := by decide
        exact Or.inl (hint c htype)
      · exact Or.inr (hspace c hmem)
      · exact Or.inl (hname.chars c hmem)

theorem Param.Written.trimmed {p : Param} {text : List Char} (h : p.Written text) :
    Trimmed text := by
  cases h with
  | intro hname hspace hne =>
      have hint : Trimmed "int".toList := Token.trimmed_word (by decide) (by decide)
      exact hint.between _ (Token.trimmed_word hname.chars hname.ne_nil)

theorem Param.Written.read {p : Param} {text before behind : List Char} (h : p.Written text)
    (hbefore : ∀ c ∈ before, isSpace c = true) (hbehind : ∀ c ∈ behind, isSpace c = true) :
    Signature.param? (before ++ text ++ behind) = some p := by
  cases h with
  | @intro name space hname hspace hne =>
      have hint : ∀ c ∈ "int".toList, isBlank c = false := by decide
      have hchars : ∀ c ∈ name.toList, isBlank c = false := fun c hc =>
        Token.isBlank_of_isNameRest (hname.chars c hc)
      have hsecond : words (name.toList ++ (behind ++ [])) = name.toList :: words [] :=
        Text.words_word hchars hname.ne_nil (Source.isBlank_spaces hbehind) fun _ => rfl
      have hfirst : words ("int".toList ++ (space ++ (name.toList ++ (behind ++ [])))) =
          "int".toList :: words (name.toList ++ (behind ++ [])) :=
        Text.words_word hint (by decide) (Source.isBlank_spaces hspace) fun hnil => absurd hnil hne
      have hwords : words (before ++ ("int".toList ++ (space ++ name.toList)) ++ behind) =
          ["int".toList, name.toList] := by
        rw [List.append_assoc, Text.words_blanks (Source.isBlank_spaces hbefore), List.append_assoc,
          List.append_assoc, ← List.append_nil behind, hfirst, hsecond]
        rfl
      rw [Signature.param?, hwords]
      simp [List.intercalate]

/-- No comma stands in a parameter or beside it. -/
theorem Param.Written.not_mem_comma {p : Param} {text before behind : List Char}
    (h : p.Written text) (hbefore : ∀ c ∈ before, isSpace c = true)
    (hbehind : ∀ c ∈ behind, isSpace c = true) : ',' ∉ before ++ text ++ behind := by
  intro hmem
  simp only [List.mem_append] at hmem
  rcases hmem with (hspace | htext) | hspace
  · exact absurd (hbefore _ hspace) (by decide)
  · rcases h.chars _ htext with hname | hspace
    · exact absurd hname (by decide)
    · exact absurd hspace (by decide)
  · exact absurd (hbehind _ hspace) (by decide)

theorem filterMap_param? {params : List Param} {texts : List (List Char)} {text : List Char}
    (h : Separated ',' texts text) (hparams : List.Forall₂ Param.Written params texts) :
    (splitOn ',' text).filterMap Signature.param? = params := by
  induction h generalizing params with
  | @last before part behind hbefore hbehind =>
      cases hparams with
      | @cons p _ params _ hp hrest =>
          cases hrest
          have hrun := Text.splitOn_run (hp.not_mem_comma hbefore hbehind) []
          rw [List.append_nil] at hrun
          rw [hrun, splitOn, joinHead_cons, List.append_nil, List.filterMap_cons,
            hp.read hbefore hbehind]
          rfl
  | @cons before part behind text parts hbefore hbehind rest ih =>
      cases hparams with
      | @cons p _ params _ hp hrest =>
          have hcut : splitOn ',' (',' :: text) = [] :: splitOn ',' text := by
            rw [splitOn, if_pos rfl]
          rw [Text.splitOn_run (hp.not_mem_comma hbefore hbehind), hcut, joinHead_cons,
            List.append_nil, List.filterMap_cons, hp.read hbefore hbehind]
          exact congrArg (p :: ·) (ih hrest)

/-- The parameters of a function are those that were written. -/
theorem ParamList.Written.read {params : List Param} {inside : List Char}
    (h : Written params inside) : Signature.paramList inside = params := by
  cases h with
  | empty hspace =>
      have htrim := Text.trim_blanks (Source.isBlank_spaces hspace)
      simp only [Signature.paramList, htrim]
      rfl
  | void hbefore hbehind =>
      have hvoid : Trimmed "void".toList := Token.trimmed_word (by decide) (by decide)
      have htrim := Source.trim_spaces hvoid hbefore hbehind
      simp only [Signature.paramList, htrim]
      rfl
  | @some _ texts _ hparams hinside =>
      have htrimmed : ∀ part ∈ texts, Trimmed part := by
        intro part hpart
        obtain ⟨p, hp⟩ := exists_of_forall₂ hparams part hpart
        exact hp.trimmed
      obtain ⟨hseparated, htrim⟩ := hinside.trim htrimmed
      have hint : ∃ rest, trim inside = 'i' :: rest := by
        cases hparams with
        | nil => cases hinside
        | cons hp hrest =>
            have hstop := htrim.stops []
            rw [List.append_nil] at hstop
            obtain ⟨space, rest, heq, -⟩ := hseparated.front hstop
            cases hp with
            | intro hname hspace hne => exact ⟨_, heq⟩
      obtain ⟨rest, hrest⟩ := hint
      have hfilled : ¬(trim inside = [] ∨ trim inside = "void".toList) := by
        rw [hrest]
        rintro (heq | heq)
        · cases heq
        · cases heq
      simp only [Signature.paramList]
      rw [if_neg hfilled]
      exact filterMap_param? hseparated hparams

theorem ParamList.Written.chars {params : List Param} {inside : List Char}
    (h : Written params inside) :
    ∀ c ∈ inside, Token.isNameRest c = true ∨ isSpace c = true ∨ c = ',' := by
  intro c hc
  cases h with
  | empty hspace => exact Or.inr (Or.inl (hspace c hc))
  | void hbefore hbehind =>
      have hvoid : ∀ c ∈ "void".toList, Token.isNameRest c = true := by decide
      simp only [List.mem_append] at hc
      rcases hc with (hmem | hmem) | hmem
      · exact Or.inr (Or.inl (hbefore c hmem))
      · exact Or.inl (hvoid c hmem)
      · exact Or.inr (Or.inl (hbehind c hmem))
  | some hparams hinside =>
      rcases hinside.mem c hc with ⟨part, hpart, hmem⟩ | hother
      · obtain ⟨p, hp⟩ := exists_of_forall₂ hparams part hpart
        rcases hp.chars c hmem with hname | hspace
        · exact Or.inl hname
        · exact Or.inr (Or.inl hspace)
      · exact Or.inr hother

/-- The parameters hold nothing that a scan looks at, except commas. -/
theorem ParamList.Written.walk {params : List Param} {inside : List Char}
    (h : Written params inside) : Walk (fun _ => false) 0 inside 0 := by
  apply Walk.run
  intro c hc
  rcases h.chars c hc with hname | hspace | rfl
  · obtain ⟨hquote, hbracket, hline, -⟩ := Token.plain_of_isNameRest hname
    exact ⟨hquote, hbracket, hline, rfl⟩
  · rcases isSpace_cases hspace with rfl | rfl | rfl <;> decide
  · decide

/-! ### Reading signatures -/

namespace Signature

variable {signature : Signature} {front tail : List Char}

theorem Written.walk (h : signature.Written front) : Walk (· == ';') 0 front 0 := by
  cases h with
  | intro htype hname hspace hne hbetween hparams =>
      have hparens := Walk.opening ((hparams.walk.deeper (· == ';')).append
        (Walk.closing (Walk.nil 0)))
      have hident := Token.walk_word Source.isSeparator_of_semicolon hname.chars 0
      have hfront := Walk.between Source.isSeparator_of_semicolon hident hbetween hparens
      exact Walk.between Source.isSeparator_of_semicolon
        (htype.walk Source.isSeparator_of_semicolon) hspace
        hfront

theorem Written.trimmed (h : signature.Written front) : Trimmed front := by
  cases h with
  | @intro type name params space between inside htype hname hspace hne hbetween hparams =>
      have hclose : Trimmed [')'] := Trimmed.singleton (by decide)
      have hends := htype.trimmed.between (space ++ (name.toList ++ (between ++ '(' :: inside)))
        hclose
      simpa using hends

theorem nameAndParams?_written {name : String} {params : List Param}
    {between inside : List Char} (hname : IsIdent name)
    (hbetween : ∀ c ∈ between, isSpace c = true) (hparams : ParamList.Written params inside)
    (htail : endsSignature tail = true) :
    nameAndParams? (name.toList ++ (between ++ '(' :: (inside ++ ')' :: tail))) =
      some (name.toList, inside) := by
  have hstop : StopsRun isWord (between ++ '(' :: (inside ++ ')' :: tail)) :=
    stops_word_of_space hbetween fun _ => StopsRun.cons (by decide) _
  have hident := ident?_append hname.isName hstop
  have hskip : skipBlanks (between ++ '(' :: (inside ++ ')' :: tail)) =
      '(' :: (inside ++ ')' :: tail) := by
    rw [Source.skipBlanks_spaces hbetween]
    rfl
  have hparen : ∀ c ∈ inside, (!(c == '(' || c == ')')) = true := by
    intro c hc
    rcases hparams.chars c hc with hchar | hspace | rfl
    · have hopen := Token.ne_of_isNameRest (d := '(') hchar (by decide)
      have hclose := Token.ne_of_isNameRest (d := ')') hchar (by decide)
      simp [hopen, hclose]
    · rcases isSpace_cases hspace with rfl | rfl | rfl <;> decide
    · decide
  have hstops : StopsRun (fun c => !(c == '(' || c == ')')) (')' :: tail) :=
    StopsRun.cons (by decide) _
  rw [nameAndParams?, hident, Option.bind_some]
  simp only [hskip, Text.dropWhile_run hparen hstops, Text.takeWhile_run hparen hstops, htail,
    if_true]

/-- A signature is read back from the front of its line. -/
theorem Written.read (h : signature.Written front) (htail : endsSignature tail = true) :
    Signature.read? (front ++ tail) = some signature := by
  cases h with
  | @intro type name params space between inside htype hname hspace hne hbetween hparams =>
      have hline : type.toList ++
          (space ++ (name.toList ++ (between ++ '(' :: (inside ++ [')'])))) ++ tail =
          type.toList ++
            (space ++ (name.toList ++ (between ++ '(' :: (inside ++ ')' :: tail)))) := by
        simp
      have hstop : StopsRun isWord (between ++ '(' :: (inside ++ ')' :: tail)) :=
        stops_word_of_space hbetween fun _ => StopsRun.cons (by decide) _
      have hleads := hname.leads hstop
      rw [hline, Signature.read?]
      apply Shape.findSome?_types _ htype hspace hne hleads hname.not_typeWord hname.ne_nil
      · have hskip : skipBlanks
            (space ++ (name.toList ++ (between ++ '(' :: (inside ++ ')' :: tail)))) =
            name.toList ++ (between ++ '(' :: (inside ++ ')' :: tail)) := by
          rw [Source.skipBlanks_spaces hspace]
          exact Text.skipBlanks_of_stops (hleads.stops hname.ne_nil)
        obtain ⟨c, rest, rfl⟩ := List.exists_cons_of_ne_nil hne
        have hblank := isBlank_of_isSpace (hspace c List.mem_cons_self)
        rw [List.cons_append] at hskip ⊢
        simp only [hblank, if_true, hskip, nameAndParams?_written hname hbetween hparams htail,
          Option.map_some, hparams.read, String.ofList_toList]
      · intro type c rest hblank
        simp [hblank]

end Signature

end ToyC
