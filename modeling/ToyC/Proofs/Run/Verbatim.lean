import ToyC.Proofs.Printf.Format
import ToyC.Proofs.Run.Live
import ToyC.Proofs.Syntax.Outline
import ToyC.Proofs.Syntax.Simple
import ToyC.Run.Call

/-!
Printing any text. A text is written with its percent signs doubled and with escapes for
backslashes, quotes and newlines; a line that prints this is one line, is read as one
statement, and prints the text as it is. The literal protects what is inside from the
division into lines and into arguments, the last parenthesis of the line ends the
arguments, and what is left of escapes and percent signs is the text.
-/

namespace ToyC

open Source (Uncut Walk isSpace)
open Shape (Leads IsEnd)
open Text (Trimmed StopsRun)

/-- How a character is written so that it is printed as it is. -/
def verbatimChar : Char → List Char
  | '%' => ['%', '%']
  | '\\' => ['\\', '\\']
  | '"' => ['\\', '"']
  | '\n' => ['\\', 'n']
  | c => [c]

/-- A line that prints a text. -/
def printLine (text : String) : List Char :=
  "printf".toList ++ '(' :: ('"' :: (text.toList.flatMap verbatimChar ++ ['"']) ++ [')', ';'])

/-! ### The format -/

/-- A text with two percent signs for each of its own. -/
def doublePercents (text : List Char) : List Char :=
  text.flatMap fun c => if c = '%' then ['%', '%'] else [c]

/-- The format that prints a text as it is. -/
def verbatimFormat (text : String) : String :=
  String.ofList (doublePercents text.toList)

theorem flatMap_verbatimChar (text : List Char) :
    text.flatMap verbatimChar = Source.escape true (doublePercents text) := by
  induction text with
  | nil => rfl
  | cons c rest ih =>
      have hdouble : doublePercents (c :: rest) =
          (if c = '%' then ['%', '%'] else [c]) ++ doublePercents rest := List.flatMap_cons ..
      rw [List.flatMap_cons, ih, hdouble]
      unfold verbatimChar
      split
      · rfl
      · rfl
      · rfl
      · rfl
      · rename_i hpercent hslash hquote hline
        rw [if_neg hpercent, List.singleton_append, List.singleton_append, Source.escape,
          if_neg (not_or.mpr ⟨hslash, hquote⟩), if_neg fun hbreak => hline hbreak.2]

namespace Printf

/-- Doubled percent signs print a percent sign, and take no value. -/
theorem fill_doublePercents (text : List Char) (values : List Value) :
    fill (pieces (doublePercents text)) values = .ok text := by
  induction text with
  | nil => rw [doublePercents, List.flatMap_nil, pieces, fill]
  | cons c rest ih =>
      by_cases hc : c = '%'
      · have hdouble : doublePercents (c :: rest) = '%' :: '%' :: doublePercents rest := by
          simp [doublePercents, hc]
        have hread : Directive.read? ('%' :: doublePercents rest) =
            some (⟨[], .percent⟩, doublePercents rest) := rfl
        rw [hdouble, pieces_directive hread, fill_percent rfl, ih, hc]
        rfl
      · have hplain : doublePercents (c :: rest) = c :: doublePercents rest := by
          simp [doublePercents, hc]
        rw [hplain, pieces_plain hc, fill, ih]
        rfl

theorem format_verbatimFormat (text : String) (values : List Value) :
    format (verbatimFormat text) values = .ok text := by
  rw [format, verbatimFormat, String.toList_ofList, fill_doublePercents]
  exact congrArg Except.ok String.ofList_toList

end Printf

/-! ### The line -/

theorem quoteText_verbatimFormat (text : String) :
    quoteText (verbatimFormat text) = '"' :: (text.toList.flatMap verbatimChar ++ ['"']) := by
  rw [quoteText, verbatimFormat, String.toList_ofList, flatMap_verbatimChar]

theorem printLine_eq (text : String) : printLine text =
    "printf".toList ++ '(' :: (quoteText (verbatimFormat text) ++ [')', ';']) := by
  rw [quoteText_verbatimFormat]
  rfl

theorem quoteText_uncut {sep : Char → Bool} (hsep : sep '"' = false) (depth : Nat) (s : String) :
    Uncut sep { depth } (quoteText s) { depth } :=
  Uncut.literal hsep s.toList (Uncut.nil _)

theorem quoteText_not_mem_newline (s : String) : '\n' ∉ quoteText s := by
  intro hmem
  simp only [quoteText, List.mem_cons, List.mem_append, List.not_mem_nil, or_false] at hmem
  rcases hmem with heq | hinside | heq
  · cases heq
  · rcases Source.mem_escape hinside with heq | heq | ⟨-, hne⟩
    · cases heq
    · cases heq
    · exact hne rfl rfl
  · cases heq

theorem trimmed_printLine (text : String) : Trimmed (printLine text) := by
  let fmt := verbatimFormat text
  have hword : Trimmed "printf".toList := Token.trimmed_word (by decide) (by decide)
  have hlast : Trimmed [';'] := Trimmed.singleton (by decide)
  have hbetween := hword.between ('(' :: (quoteText fmt ++ [')'])) hlast
  rwa [List.cons_append, List.append_assoc, List.singleton_append, ← printLine_eq] at hbetween

/-- Only the semicolon at its end divides the line: everything else stands in parentheses. -/
theorem splitLines_printLine (text : String) :
    Source.splitLines (printLine text) = [printLine text] := by
  let fmt := verbatimFormat text
  let front := "printf".toList ++ '(' :: (quoteText fmt ++ [')'])
  have hsplit : printLine text = front ++ [';'] := by
    rw [printLine_eq, List.append_assoc, List.cons_append, List.append_assoc,
      List.singleton_append]
  have hword : Walk (· == ';') 0 ("printf".toList ++ ['(']) 1 :=
    (Walk.run 0 (by decide)).append (.opening (.nil 1))
  have hclose : Uncut (· == ';') { depth := 1 } [')'] {} :=
    .cons (by simp [Source.Cursor.Cuts, Source.Cursor.top, Source.breaksLine]) (.nil _)
  have huncut : Uncut (· == ';') {} front {} := by
    have hfront := (hword.uncut rfl rfl).append ((quoteText_uncut rfl 1 fmt).append hclose)
    rwa [List.append_assoc] at hfront
  have hpiece : Source.linePieces {} (printLine text) =
      printLine text :: Source.linePieces {} [] := by
    rw [hsplit, Source.linePieces_uncut huncut, ← Source.joinHead_cons]
    rfl
  have htrim := trimmed_printLine text
  rw [Source.splitLines_piece hpiece (htrim.trim_eq.symm ▸ htrim.ne_nil), htrim.trim_eq]
  rfl

/-- Nothing inside a literal separates arguments. -/
theorem splitArguments_quoteText (s : String) :
    Source.splitArguments ',' (quoteText s) = [quoteText s] := by
  have huncut : Uncut (· == ',') {} (quoteText s) {} := quoteText_uncut rfl 0 s
  have hpieces := Source.argumentPieces_uncut huncut []
  rw [List.append_nil, Source.argumentPieces, Source.joinHead_cons, List.append_nil] at hpieces
  have htrim := quoteText_trimmed s
  rw [Source.splitArguments, Source.splitParts, hpieces, List.map_singleton, htrim.trim_eq]
  simp [htrim.ne_nil]

theorem leads_printLine (text : String) : Leads "printf".toList (printLine text) :=
  ⟨by decide, _, rfl, StopsRun.cons (by decide) _⟩

theorem shape_printLine (text : String) :
    Shape.read (printLine text) = .prints (verbatimFormat text).toList [] := by
  let fmt := verbatimFormat text
  have htail : IsEnd [';'] := Or.inr ⟨[], List.forall_mem_nil _, rfl⟩
  have hspace : ∀ c ∈ [], isSpace c = true := List.forall_mem_nil _
  have hinside := Shape.parenthesised?_append hspace (quoteText_not_mem_newline fmt) htail
  rw [List.nil_append] at hinside
  have hprints : Shape.prints? (printLine text) = some (.prints fmt.toList []) := by
    rw [printLine_eq, Shape.prints?, Shape.after?_append, Option.bind_some, hinside,
      Option.map_some, splitArguments_quoteText]
    simp only [Shape.format?_quoteText]
  rw [Shape.read, (leads_printLine text).returns? (by decide), hprints]
  rfl

theorem readBlock_printLine (text : String) : readBlock [printLine text] =
    [.simple ⟨String.ofList (printLine text), .prints (verbatimFormat text) []⟩] := by
  have hbrace : printLine text ≠ ['{'] := by
    intro heq
    have hlength := congrArg List.length heq
    simp only [printLine_eq, List.length_append, List.length_cons, List.length_nil] at hlength
    omega
  have hheader : header? (printLine text) = none :=
    (leads_printLine text).header? (by decide) (by decide) (by decide)
  obtain ⟨hsingle, hrest⟩ := Outline.statement_single hbrace hheader []
  have hread : Simple.read? (printLine text) =
      some ⟨String.ofList (printLine text), .prints (verbatimFormat text) []⟩ := by
    rw [Simple.read?, shape_printLine, Shape.deed?, String.ofList_toList]
    rfl
  rw [readBlock, Outline.lines_cons, hsingle, hrest, Outline.lines, Outline.stmts, Outline.stmt?,
    hread, Outline.stmts]
  rfl

/-! ### The run -/

theorem execBlock_printLine (env : Env) (scope : Scope) (text : String) :
    execBlock env scope (readBlock [printLine text]) =
      (Routine.emit text).bind fun _ =>
        Execution.afterYield scope fun _ => .done (scope, .completed) := by
  rw [readBlock_printLine, execBlock, exec, execDeed, evalValues]
  simp only [Routine.done_bind, Printf.format_verbatimFormat, Routine.bind_assoc, execBlock]

/-- Behind the last statement of a block only checks are seen, and either of them may find the run
cancelled. -/
theorem live_afterYield_completed (scope : Scope) (cancels : List Sight → Bool)
    (seen : List Sight) : ∃ later ending,
      (Execution.afterYield scope fun _ => .done (scope, .completed)).live cancels seen =
        (later, scope, ending) ∧
      Sight.chunks later = Sight.chunks seen ∧
      (ending = .completed ∨ ending = .aborted .cancelled) := by
  rw [Execution.afterYield, Routine.live_yieldPoint_bind]
  split
  · exact ⟨_, _, rfl, by simp [Sight.chunks_append], Or.inr rfl⟩
  · cases cancels (seen ++ [.check]) with
    | true => exact ⟨_, _, rfl, by simp [Sight.chunks_append], Or.inr rfl⟩
    | false => exact ⟨_, _, rfl, by simp [Sight.chunks_append], Or.inl rfl⟩

/-- Any text can be printed. The line that prints it is one line, which is read as one statement
without values to print. However it is cancelled, running this prints the text, once, and changes no
variable. -/
theorem printLine_verbatim {text : String} (htext : text ≠ "") :
    Source.splitLines (printLine text) = [printLine text] ∧
    readBlock [printLine text] =
      [.simple ⟨String.ofList (printLine text), .prints (verbatimFormat text) []⟩] ∧
    ∀ (env : Env) (scope : Scope) (cancels : List Sight → Bool) (seen : List Sight),
      let ended := (execBlock env scope (readBlock [printLine text])).live cancels seen
      Sight.chunks ended.1 = Sight.chunks seen ++ [text] ∧ ended.2.1 = scope ∧
        (ended.2.2 = .completed ∨ ended.2.2 = .aborted .cancelled) := by
  refine ⟨splitLines_printLine text, readBlock_printLine text, ?_⟩
  intro env scope cancels seen
  obtain ⟨later, ending, hlive, hchunks, hending⟩ :=
    live_afterYield_completed scope cancels (seen ++ [.chunk text])
  rw [Sight.chunks_append] at hchunks
  rw [execBlock_printLine, Routine.live_emit_bind htext, hlive]
  exact ⟨hchunks, rfl, hending⟩

/-- Marks of every scan in one text: a brace and a parenthesis, separators, quotes, comments,
directives, and a backslash in front of a letter. -/
theorem printLine_verbatim_marks :
    let text := "\x7b%d%%)(,;'\"/* // %\\n\n"
    let fmt := "\x7b%%d%%%%)(,;'\"/* // %%\\n\n"
    let line := "printf(\"\x7b%%d%%%%)(,;'\\\"/* // %%\\\\n\\n\");".toList
    let scope : Scope := [[("x", 1)]]
    text ≠ "" ∧ line = printLine text ∧ Source.splitLines line = [line] ∧
      readBlock [line] = [.simple ⟨String.ofList line, .prints fmt []⟩] ∧
      let ended := (execBlock (Program.env ⟨[], []⟩ {}) scope (readBlock [line])).live
        (fun _ => false) []
      Sight.chunks ended.1 = [text] ∧ ended.2.1 = scope := by
  intro text fmt line scope
  have htext : text ≠ "" := by decide
  have hline : line = printLine text := by decide
  have hfmt : verbatimFormat text = fmt := by decide
  obtain ⟨hsplit, hread, hrun⟩ := printLine_verbatim htext
  rw [hfmt] at hread
  rw [hline]
  obtain ⟨hchunks, hscope, -⟩ := hrun (Program.env ⟨[], []⟩ {}) scope (fun _ => false) []
  exact ⟨htext, rfl, hsplit, hread, hchunks, hscope⟩

end ToyC
