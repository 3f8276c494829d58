import ToyC.Proofs.Source.Walk

/-!
Dividing program text. The logical lines of a text are those that were laid out
in it, and the parts of a list are those that were put between its separators,
with the blanks around them gone.
-/

namespace ToyC.Source

open Text (isBlank skipBlanks trim Trimmed StopsRun)

/-- Characters that may stand between the words of a logical line. -/
def isSpace (c : Char) : Bool :=
  c == ' ' || c == '\t' || c == '\r'

theorem isSpace_cases {c : Char} (h : isSpace c = true) : c = ' ' ∨ c = '\t' ∨ c = '\r' := by
  simpa [isSpace, or_assoc] using h

theorem isBlank_of_isSpace {c : Char} (h : isSpace c = true) : isBlank c = true := by
  rcases isSpace_cases h with rfl | rfl | rfl <;> decide

theorem isBlank_spaces {space : List Char} (h : ∀ c ∈ space, isSpace c = true) :
    ∀ c ∈ space, isBlank c = true :=
  fun c hc => isBlank_of_isSpace (h c hc)

theorem skipBlanks_spaces {space : List Char} (h : ∀ c ∈ space, isSpace c = true)
    (text : List Char) : skipBlanks (space ++ text) = skipBlanks text :=
  Text.skipBlanks_append (isBlank_spaces h) text

theorem trim_spaces {before text behind : List Char} (h : Trimmed text)
    (hbefore : ∀ c ∈ before, isSpace c = true) (hbehind : ∀ c ∈ behind, isSpace c = true) :
    trim (before ++ text ++ behind) = text :=
  h.trim_append (isBlank_spaces hbefore) (isBlank_spaces hbehind)

/-- No space stands in front of a text that starts with no blank. -/
theorem eq_nil_of_stops {space text : List Char} (h : ∀ c ∈ space, isSpace c = true)
    (hstop : StopsRun isBlank (space ++ text)) : space = [] := by
  cases space with
  | nil => rfl
  | cons c space =>
      have hblank := isBlank_of_isSpace (h c List.mem_cons_self)
      have hnot : isBlank c = false := hstop c rfl
      rw [hnot] at hblank
      cases hblank

/-- Blanks between words are no part of any construct. -/
theorem Walk.spaces {sep : Char → Bool} (hsep : ∀ c, isSpace c = true → sep c = false)
    {space : List Char} (h : ∀ c ∈ space, isSpace c = true) (depth : Nat) :
    Walk sep depth space depth := by
  apply Walk.run
  intro c hc
  refine ⟨?_, ?_, ?_, hsep c (h c hc)⟩
  · rcases isSpace_cases (h c hc) with rfl | rfl | rfl <;> decide
  · rcases isSpace_cases (h c hc) with rfl | rfl | rfl <;> decide
  · rcases isSpace_cases (h c hc) with rfl | rfl | rfl <;> decide

/-! ### Logical lines -/

theorem linePieces_ne_nil (cursor : Cursor) (text : List Char) : linePieces cursor text ≠ [] := by
  cases text with
  | nil => simp [linePieces]
  | cons c rest =>
      rw [linePieces]
      split
      · simp
      · split
        · simp
        · split
          · simp
          · cases linePieces (cursor.step c) rest <;> simp [Text.consHead]

theorem splitLines_piece {text piece rest : List Char}
    (h : linePieces {} text = piece :: linePieces {} rest) (hne : trim piece ≠ []) :
    splitLines text = trim piece :: splitLines rest := by
  rw [splitLines, h, List.map_cons, List.filter_cons_of_pos]
  · rfl
  · simpa using hne

theorem splitLines_blank {c : Char} (h : isBlank c = true) (text : List Char) :
    splitLines (c :: text) = splitLines text := by
  by_cases hline : c = '\n'
  · subst hline
    rfl
  · have hother : ∀ {d : Char}, isBlank d = false → c ≠ d := by
      rintro d hd rfl
      rw [hd] at h
      cases h
    have hclose := hother (d := '}') (by decide)
    have hopen := hother (d := '{') (by decide)
    have hend := hother (d := ';') (by decide)
    have hstep : Cursor.step {} c = {} := by
      have hquote : isQuote c = false := by
        simp [isQuote, hother (d := '"') (by decide), hother (d := '\'') (by decide)]
      simp [Cursor.step, hquote, hother (d := '(') (by decide), hother (d := ')') (by decide)]
    obtain ⟨piece, pieces, hpieces⟩ := List.exists_cons_of_ne_nil (linePieces_ne_nil {} text)
    have htrim : trim (c :: piece) = trim piece := by
      rw [trim, trim, Text.skipBlanks, List.dropWhile_cons, if_pos h]
      rfl
    have hcons : linePieces {} (c :: text) = (c :: piece) :: pieces := by
      simp [linePieces, hline, hclose, hopen, hend, hstep, hpieces, Text.consHead]
    rw [splitLines, splitLines, hcons, hpieces, List.map_cons, List.map_cons, htrim]

theorem splitLines_blanks {space : List Char} (h : ∀ c ∈ space, isBlank c = true)
    (text : List Char) : splitLines (space ++ text) = splitLines text := by
  induction space with
  | nil => rfl
  | cons c space ih =>
      rw [List.cons_append, splitLines_blank (h c List.mem_cons_self),
        ih fun d hd => h d (List.mem_cons_of_mem _ hd)]

theorem linePieces_walk {text : List Char} (h : Walk (· == ';') 0 text 0) (rest : List Char) :
    linePieces {} (text ++ rest) = joinHead text (linePieces {} rest) :=
  linePieces_uncut (h.uncut rfl rfl) rest

/-- A semicolon and an opening brace end their line. -/
theorem splitLines_end {c : Char} (hc : c = ';' ∨ c = '{') {text : List Char}
    (h : Walk (· == ';') 0 text 0) (htrim : Trimmed (text ++ [c])) (rest : List Char) :
    splitLines (text ++ c :: rest) = (text ++ [c]) :: splitLines rest := by
  have hpiece : linePieces {} (text ++ c :: rest) = (text ++ [c]) :: linePieces {} rest := by
    rw [linePieces_walk h, ← joinHead_cons]
    rcases hc with rfl | rfl <;> rfl
  rw [splitLines_piece hpiece]
  · rw [htrim.trim_eq]
  · rw [htrim.trim_eq]
    exact htrim.ne_nil

/-- A closing brace is a line. -/
theorem splitLines_closing (rest : List Char) :
    splitLines ('}' :: rest) = ['}'] :: splitLines rest := rfl

/-- A newline ends a line. -/
theorem splitLines_newline {text space : List Char} (h : Walk (· == ';') 0 text 0)
    (htrim : Trimmed text) (hspace : ∀ c ∈ space, isSpace c = true) (rest : List Char) :
    splitLines (text ++ space ++ '\n' :: rest) = text :: splitLines rest := by
  have hwalk : Walk (· == ';') 0 (text ++ space) 0 := by
    apply h.append
    apply Walk.spaces _ hspace
    intro c hc
    rcases isSpace_cases hc with rfl | rfl | rfl <;> decide
  have hpiece : linePieces {} (text ++ space ++ '\n' :: rest) =
      (text ++ space) :: linePieces {} rest := by
    have hjoin := joinHead_cons (text ++ space) [] (linePieces {} rest)
    rw [List.append_nil] at hjoin
    rw [linePieces_walk hwalk, ← hjoin]
    rfl
  have htext : trim (text ++ space) = text := by
    have htrimmed := trim_spaces htrim (List.forall_mem_nil _) hspace
    rwa [List.nil_append] at htrimmed
  rw [splitLines_piece hpiece]
  · rw [htext]
  · rw [htext]
    exact htrim.ne_nil

/-- A logical line. It ends with a semicolon or an opening brace, is a closing brace, or is the
front of a statement that goes on below. -/
inductive IsLine : List Char → Prop
  | ended {c : Char} {text : List Char} (hc : c = ';' ∨ c = '{') (hwalk : Walk (· == ';') 0 text 0)
      (htrim : Trimmed (text ++ [c])) : IsLine (text ++ [c])
  | closing : IsLine ['}']
  | front {text : List Char} (hwalk : Walk (· == ';') 0 text 0) (htrim : Trimmed text) : IsLine text

theorem IsLine.trimmed {line : List Char} (h : IsLine line) : Trimmed line := by
  cases h with
  | ended hc hwalk htrim => exact htrim
  | closing => exact Trimmed.singleton (by decide)
  | front hwalk htrim => exact htrim

theorem IsLine.not_mem_newline {line : List Char} (h : IsLine line) : '\n' ∉ line := by
  intro hmem
  cases h with
  | @ended c text hc hwalk htrim =>
      rcases List.mem_append.mp hmem with htext | hlast
      · exact absurd (hwalk.not_breaksLine _ htext) (by decide)
      · have hline : '\n' = c := List.mem_singleton.mp hlast
        subst hline
        exact absurd hc (by decide)
  | closing => exact absurd hmem (by decide)
  | front hwalk htrim => exact absurd (hwalk.not_breaksLine _ hmem) (by decide)

/-- Whether a line ends without a newline behind it. -/
def endsLine (line : List Char) : Prop :=
  ∃ c ∈ line.getLast?, c = ';' ∨ c = '{' ∨ c = '}'

/-- A text of logical lines: blanks of any kind in front of each, and a newline behind those that
do not end by themselves. -/
inductive LaidOut : List (List Char) → List Char → Prop
  | nil {blank : List Char} (hblank : ∀ c ∈ blank, isBlank c = true) : LaidOut [] blank
  | ended {gap line text : List Char} {lines : List (List Char)}
      (hgap : ∀ c ∈ gap, isBlank c = true) (hends : endsLine line) (rest : LaidOut lines text) :
      LaidOut (line :: lines) (gap ++ (line ++ text))
  | broken {gap line space text : List Char} {lines : List (List Char)}
      (hgap : ∀ c ∈ gap, isBlank c = true) (hspace : ∀ c ∈ space, isSpace c = true)
      (rest : LaidOut lines text) :
      LaidOut (line :: lines) (gap ++ (line ++ (space ++ '\n' :: text)))

/-- A line that goes on below does not end by itself. -/
theorem not_endsLine {text : List Char} (h : Walk (· == ';') 0 text 0) : ¬endsLine text := by
  rintro ⟨c, hlast, hc⟩
  have hsep := h.last_ne ⟨rfl, rfl, rfl⟩ rfl c hlast
  have hbreaks := h.not_breaksLine c (List.mem_of_getLast? hlast)
  rcases hc with rfl | rfl | rfl
  · cases hsep
  · cases hbreaks
  · cases hbreaks

theorem IsLine.splitLines_ended {line : List Char} (h : IsLine line) (hends : endsLine line)
    (rest : List Char) : splitLines (line ++ rest) = line :: splitLines rest := by
  cases h with
  | ended hc hwalk htrim =>
      rw [List.append_assoc]
      exact splitLines_end hc hwalk htrim rest
  | closing => exact splitLines_closing rest
  | front hwalk htrim => exact absurd hends (not_endsLine hwalk)

theorem IsLine.splitLines_broken {line space : List Char} (h : IsLine line)
    (hspace : ∀ c ∈ space, isSpace c = true) (rest : List Char) :
    splitLines (line ++ (space ++ '\n' :: rest)) = line :: splitLines rest := by
  have hblank : splitLines (space ++ '\n' :: rest) = splitLines rest := by
    rw [splitLines_blanks (isBlank_spaces hspace)]
    exact splitLines_blank (by decide) rest
  cases h with
  | ended hc hwalk htrim =>
      rw [List.append_assoc, ← hblank]
      exact splitLines_end hc hwalk htrim _
  | closing =>
      rw [← hblank]
      exact splitLines_closing _
  | front hwalk htrim =>
      rw [← List.append_assoc]
      exact splitLines_newline hwalk htrim hspace rest

/-- The logical lines of a text are those that were laid out in it. -/
theorem splitLines_laidOut {lines : List (List Char)} {text : List Char} (h : LaidOut lines text)
    (hlines : ∀ line ∈ lines, IsLine line) : splitLines text = lines := by
  induction h with
  | nil hblank =>
      have hnone := splitLines_blanks hblank []
      rw [List.append_nil] at hnone
      rw [hnone]
      rfl
  | ended hgap hends rest ih =>
      rw [splitLines_blanks hgap, (hlines _ List.mem_cons_self).splitLines_ended hends,
        ih fun line hline => hlines line (List.mem_cons_of_mem _ hline)]
  | broken hgap hspace rest ih =>
      rw [splitLines_blanks hgap, (hlines _ List.mem_cons_self).splitLines_broken hspace,
        ih fun line hline => hlines line (List.mem_cons_of_mem _ hline)]

/-! ### Lists -/

/-- A text of parts with a separator between them and spaces around each. -/
inductive Separated (separator : Char) : List (List Char) → List Char → Prop
  | last {before part behind : List Char} (hbefore : ∀ c ∈ before, isSpace c = true)
      (hbehind : ∀ c ∈ behind, isSpace c = true) :
      Separated separator [part] (before ++ part ++ behind)
  | cons {before part behind text : List Char} {parts : List (List Char)}
      (hbefore : ∀ c ∈ before, isSpace c = true) (hbehind : ∀ c ∈ behind, isSpace c = true)
      (rest : Separated separator parts text) :
      Separated separator (part :: parts) (before ++ part ++ behind ++ separator :: text)

/-- The characters that lists are divided at. -/
def isSeparator (c : Char) : Bool :=
  c == ',' || c == ';'

theorem isSeparator_cases {c : Char} (h : isSeparator c = true) : c = ',' ∨ c = ';' := by
  simpa [isSeparator] using h

theorem isSeparator_of_isSpace {c : Char} (h : isSpace c = true) : isSeparator c = false := by
  rcases isSpace_cases h with rfl | rfl | rfl <;> decide

theorem isSeparator_of_semicolon (c : Char) (h : (c == ';') = true) : isSeparator c = true := by
  rw [beq_iff_eq] at h
  subst h
  rfl

theorem isSeparator_of_comma (c : Char) (h : (c == ',') = true) : isSeparator c = true := by
  rw [beq_iff_eq] at h
  subst h
  rfl

/-- Where only separators divide, other characters do not. -/
theorem not_sep {sep : Char → Bool} (hsep : ∀ c, sep c = true → isSeparator c = true) {c : Char}
    (h : isSeparator c = false) : sep c = false := by
  cases hs : sep c with
  | false => rfl
  | true => rw [hsep c hs] at h; cases h

theorem Walk.spaced {sep : Char → Bool} (hsep : ∀ c, sep c = true → isSeparator c = true)
    {before text behind : List Char} {depth : Nat} (h : Walk sep depth text depth)
    (hbefore : ∀ c ∈ before, isSpace c = true) (hbehind : ∀ c ∈ behind, isSpace c = true) :
    Walk sep depth (before ++ text ++ behind) depth := by
  have hspace : ∀ c, isSpace c = true → sep c = false := fun c hc =>
    not_sep hsep (isSeparator_of_isSpace hc)
  exact ((Walk.spaces hspace hbefore depth).append h).append (Walk.spaces hspace hbehind depth)

theorem Walk.between {sep : Char → Bool} (hsep : ∀ c, sep c = true → isSeparator c = true)
    {front space back : List Char} {depth : Nat} (hfront : Walk sep depth front depth)
    (hspace : ∀ c ∈ space, isSpace c = true) (hback : Walk sep depth back depth) :
    Walk sep depth (front ++ (space ++ back)) depth := by
  have hrest := hback.spaced hsep hspace (List.forall_mem_nil _)
  rw [List.append_nil] at hrest
  exact hfront.append hrest

/-- A line that starts with another text is still one. -/
theorem IsLine.behind {front space line : List Char} (hfront : Walk (· == ';') 0 front 0)
    (htrim : Trimmed front) (hspace : ∀ c ∈ space, isSpace c = true) (h : IsLine line)
    (hne : line ≠ ['}']) : IsLine (front ++ (space ++ line)) := by
  cases h with
  | @ended c text hc hwalk hline =>
      have hended := htrim.between space hline
      rw [← List.append_assoc space, ← List.append_assoc front] at hended ⊢
      exact IsLine.ended hc (hfront.between isSeparator_of_semicolon hspace hwalk) hended
  | closing => exact absurd rfl hne
  | front hwalk hline =>
      exact IsLine.front (hfront.between isSeparator_of_semicolon hspace hwalk)
        (htrim.between space hline)

/-- A list is a walk for any other separator. -/
theorem Separated.walk {separator : Char} {parts : List (List Char)} {text : List Char}
    (h : Separated separator parts text) {sep : Char → Bool}
    (hseparator : isSeparator separator = true)
    (hsep : ∀ c, sep c = true → isSeparator c = true) (hother : sep separator = false)
    (hparts : ∀ part ∈ parts, Walk sep 0 part 0) : Walk sep 0 text 0 := by
  induction h with
  | last hbefore hbehind =>
      exact (hparts _ List.mem_cons_self).spaced hsep hbefore hbehind
  | cons hbefore hbehind rest ih =>
      have hfirst := (hparts _ List.mem_cons_self).spaced hsep hbefore hbehind
      have hrest := ih fun part hpart => hparts part (List.mem_cons_of_mem _ hpart)
      apply hfirst.append
      rcases isSeparator_cases hseparator with rfl | rfl
      · exact Walk.plain rfl rfl (by decide) (fun _ => hother) hrest
      · exact Walk.plain rfl rfl (by decide) (fun _ => hother) hrest

/-- A part of a list: nothing, or a text without blanks at its ends, that is not divided. -/
def IsPart (separator : Char) (part : List Char) : Prop :=
  Walk (· == separator) 0 part 0 ∧ (part = [] ∨ Trimmed part)

theorem IsPart.trim_spaced {separator : Char} {part before behind : List Char}
    (h : IsPart separator part) (hbefore : ∀ c ∈ before, isSpace c = true)
    (hbehind : ∀ c ∈ behind, isSpace c = true) : trim (before ++ part ++ behind) = part := by
  rcases h.2 with rfl | htrim
  · rw [List.append_nil]
    apply Text.trim_blanks
    intro c hc
    rcases List.mem_append.mp hc with hmem | hmem
    · exact isBlank_of_isSpace (hbefore c hmem)
    · exact isBlank_of_isSpace (hbehind c hmem)
  · exact trim_spaces htrim hbefore hbehind

/-- A list is divided into the parts that it was put together from. -/
theorem splitParts_separated {separator : Char} {parts : List (List Char)} {text : List Char}
    (h : Separated separator parts text) (hseparator : isSeparator separator = true)
    (hparts : ∀ part ∈ parts, IsPart separator part) : splitParts separator text = parts := by
  have hsep : ∀ c, (c == separator) = true → isSeparator c = true := by
    intro c hc
    rw [beq_iff_eq] at hc
    rwa [hc]
  have hquote : ('"' == separator) = false := by
    rcases isSeparator_cases hseparator with rfl | rfl <;> decide
  have hopen : ('(' == separator) = false := by
    rcases isSeparator_cases hseparator with rfl | rfl <;> decide
  rw [splitParts]
  induction h with
  | @last before part behind hbefore hbehind =>
      have hpart := hparts part List.mem_cons_self
      have hwalk := hpart.1.spaced hsep hbefore hbehind
      have hpieces := argumentPieces_uncut (hwalk.uncut hquote hopen) []
      rw [List.append_nil] at hpieces
      rw [hpieces, argumentPieces, joinHead_cons, List.append_nil, List.map_cons, List.map_nil,
        hpart.trim_spaced hbefore hbehind]
  | @cons before part behind text parts hbefore hbehind rest ih =>
      have hpart := hparts part List.mem_cons_self
      have hwalk := hpart.1.spaced hsep hbefore hbehind
      have hcut : argumentPieces separator {} (separator :: text) =
          [] :: argumentPieces separator {} text := by
        rcases isSeparator_cases hseparator with rfl | rfl <;> rfl
      have hrest := ih fun other hother => hparts other (List.mem_cons_of_mem _ hother)
      rw [argumentPieces_uncut (hwalk.uncut hquote hopen), hcut, joinHead_cons, List.append_nil,
        List.map_cons, hpart.trim_spaced hbefore hbehind, hrest]

theorem splitArguments_separated {separator : Char} {parts : List (List Char)} {text : List Char}
    (h : Separated separator parts text) (hseparator : isSeparator separator = true)
    (hparts : ∀ part ∈ parts, IsPart separator part ∧ part ≠ []) :
    splitArguments separator text = parts := by
  rw [splitArguments, splitParts_separated h hseparator fun part hpart => (hparts part hpart).1,
    List.filter_eq_self]
  intro part hpart
  simpa using (hparts part hpart).2

/-- A list that starts with no blank starts with its first part. -/
theorem Separated.front {separator : Char} {part text : List Char} {parts : List (List Char)}
    (h : Separated separator (part :: parts) text) (hstarts : StopsRun isBlank text) :
    ∃ space rest, text = part ++ (space ++ rest) ∧ (∀ c ∈ space, isSpace c = true) ∧
      (rest = [] ∨ ∃ more, rest = separator :: more) := by
  cases h with
  | @last before _ behind hbefore hbehind =>
      rw [List.append_assoc] at hstarts
      rw [eq_nil_of_stops hbefore hstarts]
      exact ⟨behind, [], by simp, hbehind, Or.inl rfl⟩
  | @cons before _ behind more _ hbefore hbehind rest =>
      rw [List.append_assoc, List.append_assoc] at hstarts
      rw [eq_nil_of_stops hbefore hstarts]
      exact ⟨behind, separator :: more, by simp, hbehind, Or.inr ⟨more, rfl⟩⟩

theorem Separated.mem {separator : Char} {parts : List (List Char)} {text : List Char}
    (h : Separated separator parts text) :
    ∀ c ∈ text, (∃ part ∈ parts, c ∈ part) ∨ isSpace c = true ∨ c = separator := by
  have hpart : ∀ {before part behind : List Char} {c : Char}, (∀ c ∈ before, isSpace c = true) →
      (∀ c ∈ behind, isSpace c = true) → c ∈ before ++ part ++ behind →
      c ∈ part ∨ isSpace c = true := by
    intro before part behind c hbefore hbehind hc
    simp only [List.mem_append] at hc
    rcases hc with (hmem | hmem) | hmem
    · exact Or.inr (hbefore c hmem)
    · exact Or.inl hmem
    · exact Or.inr (hbehind c hmem)
  induction h with
  | last hbefore hbehind =>
      intro c hc
      rcases hpart hbefore hbehind hc with hmem | hspace
      · exact Or.inl ⟨_, List.mem_cons_self, hmem⟩
      · exact Or.inr (Or.inl hspace)
  | cons hbefore hbehind rest ih =>
      intro c hc
      rcases List.mem_append.mp hc with hfirst | hmore
      · rcases hpart hbefore hbehind hfirst with hmem | hspace
        · exact Or.inl ⟨_, List.mem_cons_self, hmem⟩
        · exact Or.inr (Or.inl hspace)
      · rcases List.mem_cons.mp hmore with rfl | hmem
        · exact Or.inr (Or.inr rfl)
        · rcases ih c hmem with ⟨part, hin, hchar⟩ | hother
          · exact Or.inl ⟨part, List.mem_cons_of_mem _ hin, hchar⟩
          · exact Or.inr hother

theorem Separated.behind {separator : Char} {parts : List (List Char)} {space text : List Char}
    (hspace : ∀ c ∈ space, isSpace c = true) (h : Separated separator parts text) :
    Separated separator parts (space ++ text) := by
  have hmore : ∀ {before : List Char}, (∀ c ∈ before, isSpace c = true) →
      ∀ c ∈ space ++ before, isSpace c = true := by
    intro before hbefore c hc
    rcases List.mem_append.mp hc with hmem | hmem
    · exact hspace c hmem
    · exact hbefore c hmem
  cases h with
  | last hbefore hbehind =>
      rw [List.append_assoc, ← List.append_assoc space, ← List.append_assoc]
      exact Separated.last (hmore hbefore) hbehind
  | cons hbefore hbehind rest =>
      rw [List.append_assoc, List.append_assoc, ← List.append_assoc space, ← List.append_assoc,
        ← List.append_assoc]
      exact Separated.cons (hmore hbefore) hbehind rest

/-- The blanks around a list may be taken away. -/
theorem Separated.trim {separator : Char} {parts : List (List Char)} {text : List Char}
    (h : Separated separator parts text) (hparts : ∀ part ∈ parts, Trimmed part) :
    Separated separator parts (trim text) ∧ Trimmed (trim text) := by
  have hcore : ∃ before core behind, text = before ++ core ++ behind ∧
      (∀ c ∈ before, isSpace c = true) ∧ (∀ c ∈ behind, isSpace c = true) ∧ Trimmed core ∧
      Separated separator parts core := by
    induction h with
    | @last before part behind hbefore hbehind =>
        have hbare : Separated separator [part] ([] ++ part ++ []) :=
          Separated.last (List.forall_mem_nil _) (List.forall_mem_nil _)
        rw [List.nil_append, List.append_nil] at hbare
        exact ⟨before, part, behind, rfl, hbefore, hbehind, hparts part List.mem_cons_self, hbare⟩
    | @cons before part gap text parts hbefore hgap rest ih =>
        obtain ⟨hpart, hothers⟩ := List.forall_mem_cons.mp hparts
        obtain ⟨front, core, behind, rfl, hfront, hbehind, htrim, hcore⟩ := ih hothers
        have hrest : Separated separator (part :: parts)
            ([] ++ part ++ gap ++ separator :: (front ++ core)) :=
          Separated.cons (List.forall_mem_nil _) hgap (hcore.behind hfront)
        have hends : Trimmed (part ++ (gap ++ separator :: front ++ core)) :=
          hpart.between _ htrim
        refine ⟨before, part ++ (gap ++ separator :: front ++ core), behind, ?_, hbefore, hbehind,
          hends, ?_⟩
        · simp
        · simpa using hrest
  obtain ⟨before, core, behind, rfl, hbefore, hbehind, htrim, hcore⟩ := hcore
  rw [trim_spaces htrim hbefore hbehind]
  exact ⟨hcore, htrim⟩

end ToyC.Source
