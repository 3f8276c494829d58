import ToyC.Proofs.Syntax.Deed

/-!
Reading statements without statements inside. The shapes of lines overlap and are
tried in order, so for each statement the shapes before its own are refused, by the
word that the line starts with or by the sign behind it, and its own shape takes
the parts that were written.
-/

namespace ToyC

open Source (Walk Separated IsPart isSpace isBracket isSeparator isBlank_of_isSpace)
open Text (isBlank isWord skipBlanks Trimmed StopsRun)
open Shape (IsType IsEnd Holds Leads typeWords)

/-! ### Statements without their places -/

def Declarator.unplaced (d : Declarator) : Declarator :=
  { d with value := d.value.map Expr.unplaced }

def Change.unplaced : Change → Change
  | .set value => .set value.unplaced
  | .update op value => .update op value.unplaced
  | .increment => .increment
  | .decrement => .decrement

/-- A statement with the places of its expressions forgotten. -/
def Deed.unplaced : Deed → Deed
  | .returns value => .returns (value.map Expr.unplaced)
  | .prints fmt args => .prints fmt (args.map Expr.unplaced)
  | .declares type declarators => .declares type (declarators.map Declarator.unplaced)
  | .assigns target change => .assigns target change.unplaced
  | .evaluates value => .evaluates value.unplaced
  | .breaks => .breaks
  | .continues => .continues

/-- A statement with its places and its line forgotten. -/
def Simple.unplaced (s : Simple) : Simple :=
  { src := "", deed := s.deed.unplaced }

/-! ### Parts of statements -/

theorem not_mem_newline {sep : Char → Bool} {first last : Nat} {text : List Char}
    (h : Walk sep first text last) : '\n' ∉ text := by
  intro hmem
  have hline := h.not_breaksLine '\n' hmem
  cases hline

theorem holds_of_walk {text : List Char} (h : Walk (· == ';') 0 text 0) (htrim : Trimmed text) :
    Holds text := by
  intro c hc
  have hne := h.last_ne ⟨rfl, rfl, rfl⟩ rfl c hc
  obtain ⟨front, d, rfl, hd⟩ := htrim.ends
  rw [List.getLast?_concat] at hc
  cases hc
  exact ⟨hd, by simpa using hne⟩

theorem Expr.Inline.holds {e : Expr} {text : List Char} (h : e.Inline text) : Holds text :=
  holds_of_walk (h.walk_of Source.isSeparator_of_semicolon) h.trimmed

theorem Expr.Inline.not_mem_newline {e : Expr} {text : List Char} (h : e.Inline text) :
    '\n' ∉ text :=
  ToyC.not_mem_newline h.walk

theorem read_map {args : List Expr} {texts : List (List Char)}
    (h : List.Forall₂ Expr.Inline args texts) :
    (texts.map Expr.read).map Expr.unplaced = args.map Expr.unplaced := by
  induction h with
  | nil => rfl
  | cons hfirst rest ih =>
      rw [List.map_cons, List.map_cons, List.map_cons, hfirst.read_self, ih]

theorem ident?_append {ident : List Char} (h : Token.isName ident = true) {rest : List Char}
    (hrest : StopsRun isWord rest) : Shape.ident? (ident ++ rest) = some (ident, rest) := by
  have hchars : ∀ c ∈ ident, isWord c = true := fun c hc =>
    Token.isWord_of_isNameRest (Token.isNameRest_of_isName h c hc)
  cases ident with
  | nil => cases h
  | cons c more =>
      simp only [Token.isName, Bool.and_eq_true] at h
      have hstart : Text.isIdentStart c = true := h.1
      have hmore : ∀ d ∈ more, isWord d = true := fun d hd => hchars d (List.mem_cons_of_mem _ hd)
      rw [List.cons_append, Shape.ident?, if_pos hstart, Text.takeWhile_run hmore hrest,
        Text.dropWhile_run hmore hrest]

/-- The value of a declarator or change, behind its equals sign. -/
theorem head?_ne_equals {e : Expr} {space text : List Char}
    (hspace : ∀ c ∈ space, isSpace c = true) (he : e.Inline text) (tail : List Char) :
    (space ++ (text ++ tail)).head? ≠ some '=' := by
  cases space with
  | nil =>
      obtain ⟨c, rest, rfl, -, hne⟩ := he.head
      intro heq
      cases heq
      exact hne rfl
  | cons c space =>
      intro heq
      cases heq
      exact absurd (hspace '=' List.mem_cons_self) (by decide)

/-! ### Declarators -/

theorem declarator?_written {d : Declarator} {text : List Char} (h : d.Written text) :
    ∃ value, Shape.declarator? text = some (d.name.toList, value) ∧
      (value.map Expr.read).map Expr.unplaced = d.value.map Expr.unplaced := by
  cases h with
  | @bare name hname =>
      refine ⟨none, ?_, rfl⟩
      have hident := ident?_append hname.isName (StopsRun.nil _)
      rw [List.append_nil] at hident
      rw [Shape.declarator?, hident]
      rfl
  | @valued name e before behind text hname hbefore hbehind he =>
      refine ⟨some text, ?_, ?_⟩
      · have hstop : StopsRun isWord (before ++ '=' :: (behind ++ text)) :=
          stops_word_of_space hbefore fun _ => StopsRun.cons (by decide) _
        have hident := ident?_append hname.isName hstop
        have hequals : skipBlanks (before ++ '=' :: (behind ++ text)) =
            '=' :: (behind ++ text) := by
          rw [Source.skipBlanks_spaces hbefore]
          rfl
        have hvalue : skipBlanks (behind ++ text) = text := by
          rw [Source.skipBlanks_spaces hbehind]
          exact Text.skipBlanks_of_stops he.starts
        have hfull : ¬(text = [] ∨ text.contains '\n' = true) := by
          rintro (hnil | hmem)
          · exact he.trimmed.ne_nil hnil
          · exact he.not_mem_newline (by simpa using hmem)
        rw [Shape.declarator?, hident]
        simp only [Option.bind_some, hequals, hvalue, if_neg hfull]
      · simp [he.read_self]

theorem Declarator.Written.isIdent {d : Declarator} {text : List Char} (h : d.Written text) :
    IsIdent d.name := by
  cases h with
  | bare hname => exact hname
  | valued hname hbefore hbehind he => exact hname

theorem Declarator.Written.leads {d : Declarator} {text rest : List Char} (h : d.Written text)
    (hrest : StopsRun isWord rest) : Leads d.name.toList (text ++ rest) := by
  cases h with
  | bare hname => exact hname.leads hrest
  | valued hname hbefore hbehind he =>
      rw [List.append_assoc, List.append_assoc]
      exact hname.leads (stops_word_of_space hbefore fun _ => StopsRun.cons (by decide) _)

theorem declarators_written {ds : List Declarator} {texts : List (List Char)}
    (h : List.Forall₂ Declarator.Written ds texts) :
    ∃ found, Shape.declarators texts = (found, true) ∧
      (found.map fun (name, value) =>
        (⟨String.ofList name, value.map Expr.read⟩ : Declarator).unplaced) =
        ds.map Declarator.unplaced ∧ (ds ≠ [] → found ≠ []) := by
  induction h with
  | nil => exact ⟨[], rfl, rfl, fun hne => absurd rfl hne⟩
  | @cons d text ds texts hfirst rest ih =>
      obtain ⟨value, hread, hvalue⟩ := declarator?_written hfirst
      obtain ⟨found, hfound, hmap, -⟩ := ih
      refine ⟨(d.name.toList, value) :: found, ?_, ?_, fun _ => List.cons_ne_nil _ _⟩
      · rw [Shape.declarators, hread, hfound]
      · rw [List.map_cons, List.map_cons, hmap]
        simp [Declarator.unplaced, hvalue]

/-! ### One shape for each statement -/

theorem ArithOp.sign_of (op : ArithOp) : ∃ sign, op.symbol.toList = [sign] ∧
    sign ∈ ['-', '+', '*', '/', '%'] ∧ ArithOp.ofSign? sign = some op := by
  cases op with
  | _ => exact ⟨_, rfl, by decide, rfl⟩

namespace Shape

theorem afterWord?_append (word : List Char) {rest : List Char} (h : StopsRun isWord rest) :
    afterWord? word (word ++ rest) = some rest := by
  rw [afterWord?, after?_append]
  cases rest with
  | nil => rfl
  | cons c rest =>
      have hc : isWord c = false := h c rfl
      simp [hc]

theorem read_returnsNothing {tail : List Char} (htail : IsEnd tail) :
    Shape.read ("return".toList ++ tail) = .returns none := by
  have hshort : shortestPart? (skipBlanks tail) = some [] := by
    rcases htail with rfl | ⟨space, hspace, rfl⟩
    · rfl
    · rw [Source.skipBlanks_spaces hspace]
      rfl
  have hreturns : returns? ("return".toList ++ tail) = some (.returns none) := by
    rw [returns?, afterWord?_append _ htail.stops, Option.bind_some, hshort]
    rfl
  rw [Shape.read, hreturns]
  rfl

theorem read_returns {e : Expr} {space text tail : List Char}
    (hspace : ∀ c ∈ space, isSpace c = true) (he : e.Inline text)
    (hapart : space = [] → StopsRun isWord text) (htail : IsEnd tail) :
    Shape.read ("return".toList ++ (space ++ (text ++ tail))) = .returns (some text) := by
  have hne := he.trimmed.ne_nil
  have hstop : StopsRun isWord (space ++ (text ++ tail)) :=
    stops_word_of_space hspace fun hnil => (hapart hnil).append hne tail
  have hskip : skipBlanks (space ++ (text ++ tail)) = text ++ tail := by
    rw [Source.skipBlanks_spaces hspace]
    exact Text.skipBlanks_of_stops (he.trimmed.stops tail)
  have hshort := shortestPart?_append he.holds he.not_mem_newline htail.endsStatement
  have hreturns : returns? ("return".toList ++ (space ++ (text ++ tail))) =
      some (.returns (some text)) := by
    rw [returns?, afterWord?_append _ hstop, Option.bind_some, hskip, hshort]
    simp [hne]
  rw [Shape.read, hreturns]
  rfl

theorem format?_quoteText (s : String) : format? (quoteText s) = some s.toList := by
  simp [format?, quoteText, Source.unescape_escape]

theorem read_prints {fmt : String} {args : List Expr} {texts : List (List Char)}
    {space inside tail : List Char} (hfmt : ∀ c ∈ fmt.toList, isBracket c = false)
    (hargs : List.Forall₂ Expr.Inline args texts) (hspace : ∀ c ∈ space, isSpace c = true)
    (hinside : Separated ',' (quoteText fmt :: texts) inside) (htail : IsEnd tail) :
    Shape.read ("printf".toList ++ (space ++ '(' :: (inside ++ ')' :: tail))) =
      .prints fmt.toList texts := by
  have hstop : StopsRun isWord (space ++ '(' :: (inside ++ ')' :: tail)) :=
    stops_word_of_space hspace fun _ => StopsRun.cons (by decide) _
  have hleads : Leads "printf".toList
      ("printf".toList ++ (space ++ '(' :: (inside ++ ')' :: tail))) :=
    ⟨by decide, _, rfl, hstop⟩
  have hparts : ∀ part ∈ quoteText fmt :: texts, IsPart ',' part ∧ part ≠ [] := by
    intro part hpart
    rcases List.mem_cons.mp hpart with rfl | hmem
    · have htrim := quoteText_trimmed fmt
      exact ⟨⟨quoteText_walk hfmt 0, Or.inr htrim⟩, htrim.ne_nil⟩
    · obtain ⟨e, he⟩ := exists_of_forall₂ hargs part hmem
      exact ⟨⟨he.walk_of Source.isSeparator_of_comma, Or.inr he.trimmed⟩, he.trimmed.ne_nil⟩
  have hline : '\n' ∉ inside := not_mem_newline (printed_walk hfmt hargs hinside)
  have hsplit := Source.splitArguments_separated hinside rfl hparts
  have hprints : prints? ("printf".toList ++ (space ++ '(' :: (inside ++ ')' :: tail))) =
      some (.prints fmt.toList texts) := by
    rw [prints?, after?_append, Option.bind_some, parenthesised?_append hspace hline htail,
      Option.map_some, hsplit]
    simp only [format?_quoteText]
  rw [Shape.read, hleads.returns? (by decide), hprints]
  rfl

theorem read_declares {type : String} {ds : List Declarator} {texts : List (List Char)}
    {space text tail : List Char} (htype : IsType type.toList)
    (hds : List.Forall₂ Declarator.Written ds texts) (hspace : ∀ c ∈ space, isSpace c = true)
    (hne : space ≠ []) (htext : Separated ',' texts text) (htrim : Trimmed text)
    (htail : IsEnd tail) :
    ∃ found, Shape.read (type.toList ++ (space ++ (text ++ tail))) =
        .declares type.toList found ∧
      (found.map fun (name, value) =>
        (⟨String.ofList name, value.map Expr.read⟩ : Declarator).unplaced) =
        ds.map Declarator.unplaced := by
  obtain ⟨found, hfound, hmap, hfull⟩ := declarators_written hds
  have hwalk := declared_walk hds htext
  have hsplit : Source.splitArguments ',' text = texts := by
    apply Source.splitArguments_separated htext rfl
    intro part hpart
    obtain ⟨d, hd⟩ := exists_of_forall₂ hds part hpart
    exact ⟨⟨hd.walk Source.isSeparator_of_comma, Or.inr hd.trimmed⟩, hd.trimmed.ne_nil⟩
  have hpart : partAfterBlanks? 1 (space ++ (text ++ tail)) = some text :=
    partAfterBlanks?_append hspace (List.length_pos_iff.mpr hne) htrim (holds_of_walk hwalk htrim)
      (not_mem_newline hwalk) htail.endsStatement
  have hname : ds ≠ [] ∧ ∃ name, IsIdent name ∧ Leads name.toList (text ++ tail) := by
    cases hds with
    | nil => cases htext
    | @cons d part ds parts hd hrest =>
        obtain ⟨gap, rest, rfl, hgap, hmore⟩ := htext.front (by simpa using htrim.stops [])
        have hstop : StopsRun isWord (gap ++ (rest ++ tail)) := by
          apply stops_word_of_space hgap
          intro _
          rcases hmore with rfl | ⟨more, rfl⟩
          · exact htail.stops
          · exact StopsRun.cons (by decide) _
        refine ⟨List.cons_ne_nil _ _, d.name, hd.isIdent, ?_⟩
        rw [List.append_assoc, List.append_assoc]
        exact hd.leads hstop
  obtain ⟨hfilled, name, hident, hleads⟩ := hname
  have hdeclares : declares? (type.toList ++ (space ++ (text ++ tail))) =
      some (.declares type.toList found) := by
    rw [declares?]
    apply findSome?_types _ htype hspace hne hleads hident.not_typeWord hident.ne_nil
    · simp [hpart, hsplit, hfound, hfull hfilled]
    · intro type c rest hblank
      simp [partAfterBlanks?, hblank]
  obtain ⟨word, hword, hfirst⟩ := htype.leads hspace hne (text ++ tail)
  have hdistinct : ∀ word ∈ typeWords, "return".toList ≠ word ∧ "printf".toList ≠ word := by decide
  refine ⟨found, ?_, hmap⟩
  rw [Shape.read, hfirst.returns? (hdistinct word hword).1, hfirst.prints? (hdistinct word hword).2,
    hdeclares]
  rfl

/-- A line that starts with a name is none of the shapes that start with a word of their own. -/
theorem first_shapes {ident : String} {line : List Char} (h : IsIdent ident)
    (hleads : Leads ident.toList line) :
    returns? line = none ∧ prints? line = none ∧ declares? line = none ∧
      word? "break".toList .breaks line = none ∧ word? "continue".toList .continues line = none :=
  ⟨hleads.returns? (h.ne (by decide)), hleads.prints? (h.ne (by decide)),
    hleads.declares? h.not_typeWord, hleads.word? (by decide) (h.ne (by decide)) _,
    hleads.word? (by decide) (h.ne (by decide)) _⟩

/-- The part behind an equals sign is the value. -/
theorem value?_written {e : Expr} {space text tail : List Char}
    (hspace : ∀ c ∈ space, isSpace c = true) (he : e.Inline text) (htail : IsEnd tail) :
    partAfterBlanks? 0 (space ++ (text ++ tail)) = some text :=
  partAfterBlanks?_append hspace (Nat.zero_le _) he.trimmed he.holds he.not_mem_newline
    htail.endsStatement

/-- A change is read from the text that writes it: with an equals sign as an assignment, with a
doubled sign as a count. -/
theorem change_written {change : Change} {text tail : List Char} (h : change.Written text)
    (htail : IsEnd tail) :
    ∃ shape, ((change? (text ++ tail) = some shape) ∨
        (change? (text ++ tail) = none ∧ twin? (text ++ tail) = some (shape, tail))) ∧
      ∃ found, shape.change? = some found ∧ found.unplaced = change.unplaced := by
  cases h with
  | @set e space text hspace he =>
      have hvalue := value?_written hspace he htail
      have hhead := head?_ne_equals hspace he tail
      refine ⟨.set text, Or.inl ?_, .set (Expr.read text), rfl, ?_⟩
      · rw [List.cons_append, List.append_assoc, change?, if_neg hhead, hvalue]
        rfl
      · rw [Change.unplaced, Change.unplaced, he.read_self]
  | @update op e space text hspace he =>
      have hvalue := value?_written hspace he htail
      have hhead := head?_ne_equals hspace he tail
      obtain ⟨sign, hsymbol, hsign, hop⟩ := op.sign_of
      have hne : sign ≠ '=' := by
        rintro rfl
        revert hsign
        decide
      refine ⟨.update sign text, Or.inl ?_, .update op (Expr.read text), ?_, ?_⟩
      · rw [hsymbol, List.singleton_append, List.cons_append, List.cons_append, List.append_assoc,
          change?]
        · rw [if_pos ⟨hsign, hhead⟩, hvalue]
          rfl
        · exact hne
      · rw [ChangeShape.change?, hop]
        rfl
      · rw [Change.unplaced, Change.unplaced, he.read_self]
  | increment => exact ⟨.increment, Or.inr ⟨rfl, rfl⟩, .increment, rfl, rfl⟩
  | decrement => exact ⟨.decrement, Or.inr ⟨rfl, rfl⟩, .decrement, rfl, rfl⟩

theorem read_assigns {target : String} {change : Change} {space text tail : List Char}
    (htarget : IsIdent target) (hspace : ∀ c ∈ space, isSpace c = true)
    (hchange : change.Written text) (htail : IsEnd tail) :
    ∃ shape, Shape.read (target.toList ++ (space ++ (text ++ tail))) =
        .assigns target.toList shape ∧
      ∃ found, shape.change? = some found ∧ found.unplaced = change.unplaced := by
  have hstop : StopsRun isWord (space ++ (text ++ tail)) :=
    stops_word_of_space hspace fun _ => hchange.stops tail
  obtain ⟨hreturns, hprints, hdeclares, -⟩ := first_shapes htarget (htarget.leads hstop)
  have hident := ident?_append htarget.isName hstop
  have hskip : skipBlanks (space ++ (text ++ tail)) = text ++ tail := by
    rw [Source.skipBlanks_spaces hspace]
    exact Text.skipBlanks_of_stops (hchange.trimmed.stops tail)
  obtain ⟨shape, hshape, hfound⟩ := change_written hchange htail
  refine ⟨shape, ?_, hfound⟩
  rcases hshape with hset | ⟨hnone, htwin⟩
  · have hassigns : assigns? (target.toList ++ (space ++ (text ++ tail))) =
        some (.assigns target.toList shape) := by
      rw [assigns?, hident, Option.bind_some]
      simp only [hskip, hset, Option.map_some]
    rw [Shape.read, hreturns, hprints, hdeclares, hassigns]
    rfl
  · have hassigns : assigns? (target.toList ++ (space ++ (text ++ tail))) = none := by
      rw [assigns?, hident, Option.bind_some]
      simp only [hskip, hnone, Option.map_none]
    have hcounts : counts? (target.toList ++ (space ++ (text ++ tail))) =
        some (.assigns target.toList shape) := by
      rw [counts?, hident]
      simp only [hskip, htwin, Option.bind_some, htail.endsStatement, if_true]
    rw [Shape.read, hreturns, hprints, hdeclares, hassigns, hcounts]
    rfl

/-- A statement of one word. -/
theorem read_word {word : List Char} {shape : Shape} {tail : List Char}
    (h : word = "break".toList ∧ shape = .breaks ∨ word = "continue".toList ∧ shape = .continues)
    (htail : IsEnd tail) : Shape.read (word ++ tail) = shape := by
  have hleads : Leads word (word ++ tail) := by
    refine ⟨?_, tail, rfl, htail.stops⟩
    rcases h with ⟨rfl, -⟩ | ⟨rfl, -⟩ <;> decide
  have hskip : skipBlanks tail = [] ∨ skipBlanks tail = [';'] := by
    rcases htail with rfl | ⟨space, hspace, rfl⟩
    · exact Or.inl rfl
    · right
      rw [Source.skipBlanks_spaces hspace]
      rfl
  have hident : ident? (word ++ tail) = some (word, tail) := by
    apply ident?_append _ htail.stops
    rcases h with ⟨rfl, -⟩ | ⟨rfl, -⟩ <;> decide
  have hassigns : assigns? (word ++ tail) = none := by
    rw [assigns?, hident, Option.bind_some]
    rcases hskip with heq | heq <;> simp only [heq] <;> rfl
  have hcounts : counts? (word ++ tail) = none := by
    rw [counts?, hident]
    rcases hskip with heq | heq <;> simp only [heq] <;> rfl
  have hword : ∀ shape, word? word shape (word ++ tail) = some shape := by
    intro shape
    rw [word?, after?_append, Option.bind_some, if_pos htail.endsStatement]
  rcases h with ⟨rfl, rfl⟩ | ⟨rfl, rfl⟩
  · rw [Shape.read, hleads.returns? (by decide), hleads.prints? (by decide),
      hleads.declares? (by decide), hassigns, hcounts, hword]
    rfl
  · rw [Shape.read, hleads.returns? (by decide), hleads.prints? (by decide),
      hleads.declares? (by decide), hassigns, hcounts, hleads.word? (by decide) (by decide), hword]
    rfl

/-- The text of a call without the semicolon behind it. -/
theorem dropEnd_append {text tail : List Char} (h : Holds text) (htrim : Trimmed text)
    (htail : IsEnd tail) :
    ∃ space, Text.dropEndWhile (· == ';') (Text.trimEnd (text ++ tail)) = text ++ space ∧
      ∀ c ∈ space, isSpace c = true := by
  obtain ⟨front, c, rfl, hblank⟩ := htrim.ends
  have hkeep : ∀ {front : List Char} {c : Char}, c ≠ ';' →
      Text.dropEndWhile (· == ';') (front ++ [c]) = front ++ [c] := fun hne =>
    Text.dropEndWhile_snoc (by simpa using hne) _
  have hend : c ≠ ';' := (h c (by rw [List.getLast?_concat]; rfl)).2
  rcases htail with rfl | ⟨space, hspace, rfl⟩
  · refine ⟨[], ?_, fun _ hc => nomatch hc⟩
    rw [List.append_nil, Text.trimEnd, Text.dropEndWhile_snoc hblank, hkeep hend]
  · refine ⟨space, ?_, hspace⟩
    have hsemicolon : Text.dropEndWhile (· == ';') (front ++ [c] ++ space ++ [';']) =
        Text.dropEndWhile (· == ';') (front ++ [c] ++ space) :=
      Text.dropEndWhile_append (by decide) _
    rw [← List.append_assoc, Text.trimEnd, Text.dropEndWhile_snoc (by decide), hsemicolon]
    rcases List.eq_nil_or_concat space with rfl | ⟨before, d, rfl⟩
    · rw [List.append_nil, hkeep hend]
    · have hd : d ≠ ';' := by
        have hmem := hspace d (by simp)
        rcases Source.isSpace_cases hmem with rfl | rfl | rfl <;> decide
      rw [List.concat_eq_append, ← List.append_assoc, hkeep hd]

theorem change?_paren (rest : List Char) : change? ('(' :: rest) = none := by
  rw [change?.eq_def]
  split
  · rename_i heq
    cases heq
  · rename_i heq
    cases heq
    simp
  · rfl

theorem read_evaluates {pos : Position} {func : String} {args : List Expr}
    {text tail : List Char} (hfunc : IsIdent func) (hcall : (Expr.call pos func args).Inline text)
    (htail : IsEnd tail) :
    ∃ space, Shape.read (text ++ tail) = .evaluates (text ++ space) ∧
      ∀ c ∈ space, isSpace c = true := by
  obtain ⟨dropped, hdrop, hdropped⟩ := dropEnd_append hcall.holds hcall.trimmed htail
  refine ⟨dropped, ?_, hdropped⟩
  have hline := hcall.not_mem_newline
  obtain ⟨space, inside, rfl, hspace⟩ := hcall.call
  have hrest : func.toList ++ (space ++ '(' :: (inside ++ [')'])) ++ tail =
      func.toList ++ (space ++ '(' :: (inside ++ ')' :: tail)) := by
    simp
  have hstop : StopsRun isWord (space ++ '(' :: (inside ++ ')' :: tail)) :=
    stops_word_of_space hspace fun _ => StopsRun.cons (by decide) _
  have hskip : skipBlanks (space ++ '(' :: (inside ++ ')' :: tail)) =
      '(' :: (inside ++ ')' :: tail) := by
    rw [Source.skipBlanks_spaces hspace]
    rfl
  have hinside : '\n' ∉ inside := fun hmem => hline (by simp [hmem])
  have hparens := parenthesised?_append hspace hinside htail
  have hident := ident?_append hfunc.isName hstop
  obtain ⟨hreturns, hprints, hdeclares, hbreaks, hcontinues⟩ :=
    first_shapes hfunc (hfunc.leads hstop)
  have hassigns : assigns? (func.toList ++ (space ++ '(' :: (inside ++ ')' :: tail))) = none := by
    rw [assigns?, hident, Option.bind_some]
    simp only [hskip, change?_paren, Option.map_none]
  have hcounts : counts? (func.toList ++ (space ++ '(' :: (inside ++ ')' :: tail))) = none := by
    rw [counts?, hident]
    simp only [hskip]
    rfl
  rw [hrest] at hdrop ⊢
  have hevaluates : evaluates? (func.toList ++ (space ++ '(' :: (inside ++ ')' :: tail))) =
      some (.evaluates (func.toList ++ (space ++ '(' :: (inside ++ [')'])) ++ dropped)) := by
    rw [evaluates?, hident, Option.bind_some]
    simp only [hparens, Option.map_some, hdrop]
  rw [Shape.read, hreturns, hprints, hdeclares, hassigns, hcounts, hbreaks, hcontinues, hevaluates]
  rfl

end Shape

/-- The statement of a line is the one that was written there. -/
theorem Deed.Written.read {d : Deed} {text tail : List Char} (h : d.Written text)
    (htail : IsEnd tail) :
    ∃ s, Simple.read? (text ++ tail) = some s ∧ s.deed.unplaced = d.unplaced := by
  have hread : ∀ {shape : Shape} {found : Deed}, Shape.read (text ++ tail) = shape →
      shape.deed? = some found → found.unplaced = d.unplaced →
      ∃ s, Simple.read? (text ++ tail) = some s ∧ s.deed.unplaced = d.unplaced := by
    intro shape found hshape hdeed hfound
    refine ⟨{ src := String.ofList (text ++ tail), deed := found }, ?_, hfound⟩
    rw [Simple.read?, hshape, hdeed]
    rfl
  cases h with
  | returnsNothing => exact hread (Shape.read_returnsNothing htail) rfl rfl
  | @returns e space text hspace he hapart =>
      have hshape := Shape.read_returns hspace he hapart htail
      rw [← List.append_assoc space, ← List.append_assoc] at hshape
      apply hread hshape rfl
      simp [Deed.unplaced, he.read_self]
  | @prints fmt args texts space inside hfmt hargs hspace hinside =>
      have hshape := Shape.read_prints hfmt hargs hspace hinside htail
      have htext : "printf".toList ++ (space ++ '(' :: (inside ++ [')'])) ++ tail =
          "printf".toList ++ (space ++ '(' :: (inside ++ ')' :: tail)) := by
        simp
      rw [← htext] at hshape
      apply hread hshape rfl
      rw [Deed.unplaced, Deed.unplaced, String.ofList_toList, read_map hargs]
  | @declares type ds texts space text htype hds hspace hne htext htrim =>
      obtain ⟨found, hshape, hfound⟩ :=
        Shape.read_declares htype hds hspace hne htext htrim htail
      rw [← List.append_assoc space, ← List.append_assoc] at hshape
      apply hread hshape rfl
      rw [Deed.unplaced, Deed.unplaced, String.ofList_toList, ← hfound, List.map_map]
      rfl
  | @assigns target change space text htarget hspace hchange =>
      obtain ⟨shape, hshape, found, hfound, hunplaced⟩ :=
        Shape.read_assigns htarget hspace hchange htail
      rw [← List.append_assoc space, ← List.append_assoc] at hshape
      have hdeed : (Shape.assigns target.toList shape).deed? = some (.assigns target found) := by
        simp [Shape.deed?, hfound]
      apply hread hshape hdeed
      rw [Deed.unplaced, Deed.unplaced, hunplaced]
  | evaluates hfunc hcall =>
      obtain ⟨space, hshape, hspace⟩ := Shape.read_evaluates hfunc hcall htail
      apply hread hshape rfl
      have hvalue := hcall.read (List.forall_mem_nil _) hspace
      rw [Deed.unplaced, Deed.unplaced, ← hvalue]
      rfl
  | breaks => exact hread (Shape.read_word (Or.inl ⟨rfl, rfl⟩) htail) rfl rfl
  | continues => exact hread (Shape.read_word (Or.inr ⟨rfl, rfl⟩) htail) rfl rfl

end ToyC
