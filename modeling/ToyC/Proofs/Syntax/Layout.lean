import ToyC.Proofs.Syntax.Outline
import ToyC.Proofs.Syntax.Simple

/-!
Writing statements on logical lines. A statement without statements inside is one
line. The others start with a header, and their bodies stand in braces or, where
they are one statement, behind the header without them. The lines of a statement
are logical lines, their braces balance, and none of them starts the other branch
of a statement in front of them.
-/

namespace ToyC

open Source (Walk Separated IsLine isSpace isSeparator isBlank_of_isSpace)
open Text (isBlank isWord Trimmed StopsRun)

/-! ### Headers -/

/-- A text that writes an expression between parentheses. -/
inductive Expr.Enclosed (e : Expr) : List Char → Prop
  | intro {before text behind : List Char} (hbefore : ∀ c ∈ before, isSpace c = true)
      (he : e.Inline text) (hbehind : ∀ c ∈ behind, isSpace c = true) :
      Enclosed e (before ++ text ++ behind)

/-- A text that writes a clause of a loop header, or nothing where there is none. -/
inductive Clause {α : Type} (written : α → List Char → Prop) : Option α → List Char → Prop
  | absent : Clause written none []
  | present {a : α} {text : List Char} (h : written a text) : Clause written (some a) text

/-- A text that writes the clauses of a loop header. -/
inductive Clauses.Written (start : Option Simple) (condition : Option Expr)
    (next : Option Simple) : List Char → Prop
  | intro {first second third inside : List Char}
      (hstart : Clause (fun s => s.deed.Written) start first)
      (hcondition : Clause Expr.Inline condition second)
      (hnext : Clause (fun s => s.deed.Written) next third)
      (h : Separated ';' [first, second, third] inside) : Written start condition next inside

/-- A keyword and what stands in parentheses behind it. -/
def headerText (keyword : Keyword) (space inside : List Char) : List Char :=
  keyword.word.toList ++ (space ++ '(' :: (inside ++ [')']))

/-! ### Statements -/

/-- A statement with the lines that write it. -/
structure Piece where
  stmt : Stmt
  /-- whether the word for the other branch, behind the lines, would start no part of it -/
  closed : Bool
  lines : List (List Char)

/-- Lines in braces, where the first brace stands on the line in front of them or on its own: what
stands behind the front on its line, and the lines below. -/
inductive Braced (lines : List (List Char)) : List Char → List (List Char) → Prop
  | beside {space : List Char} (hspace : ∀ c ∈ space, isSpace c = true) :
      Braced lines (space ++ ['{']) (lines ++ [['}']])
  | below : Braced lines [] (['{'] :: (lines ++ [['}']]))

/-- The body of a header: in braces, or one statement without them that is no block itself. -/
inductive Body : List Piece → Bool → List Char → List (List Char) → Prop
  | braced {pieces : List Piece} {tail : List Char} {more : List (List Char)}
      (h : Braced (pieces.flatMap Piece.lines) tail more) : Body pieces true tail more
  | beside {piece : Piece} {space first : List Char} {more : List (List Char)}
      (hspace : ∀ c ∈ space, isSpace c = true) (hlines : piece.lines = first :: more)
      (hfirst : first ≠ ['{']) : Body [piece] piece.closed (space ++ first) more
  | below {piece : Piece} {first : List Char} {more : List (List Char)}
      (hlines : piece.lines = first :: more) (hfirst : first ≠ ['{']) :
      Body [piece] piece.closed [] (first :: more)

/-- Lines that write a statement. Of a branch with another one, the first body must not take the
word for the other branch as its own. -/
inductive Stmt.Written : Stmt → Bool → List (List Char) → Prop
  | simple {s : Simple} {text space : List Char} (h : s.deed.Written text)
      (hspace : ∀ c ∈ space, isSpace c = true) :
      Written (.simple s) true [text ++ (space ++ [';'])]
  | block {src : String} {pieces : List Piece}
      (h : ∀ piece ∈ pieces, Written piece.stmt piece.closed piece.lines) :
      Written (.block src (pieces.map Piece.stmt)) true
        (['{'] :: (pieces.flatMap Piece.lines ++ [['}']]))
  | whileLoop {src : String} {condition : Expr} {pieces : List Piece} {closed : Bool}
      {space inside tail : List Char} {more : List (List Char)}
      (hspace : ∀ c ∈ space, isSpace c = true) (hinside : condition.Enclosed inside)
      (h : ∀ piece ∈ pieces, Written piece.stmt piece.closed piece.lines)
      (hbody : Body pieces closed tail more) :
      Written (.whileLoop src condition (pieces.map Piece.stmt)) closed
        ((headerText .whileLoop space inside ++ tail) :: more)
  | forLoop {src : String} {start : Option Simple} {condition : Option Expr}
      {next : Option Simple} {pieces : List Piece} {closed : Bool}
      {space inside tail : List Char} {more : List (List Char)}
      (hspace : ∀ c ∈ space, isSpace c = true)
      (hinside : Clauses.Written start condition next inside)
      (h : ∀ piece ∈ pieces, Written piece.stmt piece.closed piece.lines)
      (hbody : Body pieces closed tail more) :
      Written (.forLoop src start condition next (pieces.map Piece.stmt)) closed
        ((headerText .forLoop space inside ++ tail) :: more)
  | branch {src : String} {condition : Expr} {pieces : List Piece} {closed : Bool}
      {space inside tail : List Char} {more : List (List Char)}
      (hspace : ∀ c ∈ space, isSpace c = true) (hinside : condition.Enclosed inside)
      (h : ∀ piece ∈ pieces, Written piece.stmt piece.closed piece.lines)
      (hbody : Body pieces closed tail more) :
      Written (.branch src condition (pieces.map Piece.stmt) none) false
        ((headerText .branch space inside ++ tail) :: more)
  | branchElse {src : String} {condition : Expr} {yes no : List Piece} {closed : Bool}
      {space inside tail other : List Char} {more others : List (List Char)}
      (hspace : ∀ c ∈ space, isSpace c = true) (hinside : condition.Enclosed inside)
      (hyes : ∀ piece ∈ yes, Written piece.stmt piece.closed piece.lines)
      (hno : ∀ piece ∈ no, Written piece.stmt piece.closed piece.lines)
      (hbody : Body yes true tail more) (hother : Body no closed other others)
      (hapart : StopsRun isWord other) :
      Written (.branch src condition (yes.map Piece.stmt) (some (no.map Piece.stmt))) closed
        ((headerText .branch space inside ++ tail) :: (more ++ ("else".toList ++ other) :: others))

/-- Lines that write a statement with each body in braces. -/
inductive Stmt.FullyBraced : Stmt → Bool → List (List Char) → Prop
  | simple {s : Simple} {text space : List Char} (h : s.deed.Written text)
      (hspace : ∀ c ∈ space, isSpace c = true) :
      FullyBraced (.simple s) true [text ++ (space ++ [';'])]
  | block {src : String} {pieces : List Piece}
      (h : ∀ piece ∈ pieces, FullyBraced piece.stmt piece.closed piece.lines) :
      FullyBraced (.block src (pieces.map Piece.stmt)) true
        (['{'] :: (pieces.flatMap Piece.lines ++ [['}']]))
  | whileLoop {src : String} {condition : Expr} {pieces : List Piece}
      {space inside tail : List Char} {more : List (List Char)}
      (hspace : ∀ c ∈ space, isSpace c = true) (hinside : condition.Enclosed inside)
      (h : ∀ piece ∈ pieces, FullyBraced piece.stmt piece.closed piece.lines)
      (hbody : Braced (pieces.flatMap Piece.lines) tail more) :
      FullyBraced (.whileLoop src condition (pieces.map Piece.stmt)) true
        ((headerText .whileLoop space inside ++ tail) :: more)
  | forLoop {src : String} {start : Option Simple} {condition : Option Expr}
      {next : Option Simple} {pieces : List Piece} {space inside tail : List Char}
      {more : List (List Char)} (hspace : ∀ c ∈ space, isSpace c = true)
      (hinside : Clauses.Written start condition next inside)
      (h : ∀ piece ∈ pieces, FullyBraced piece.stmt piece.closed piece.lines)
      (hbody : Braced (pieces.flatMap Piece.lines) tail more) :
      FullyBraced (.forLoop src start condition next (pieces.map Piece.stmt)) true
        ((headerText .forLoop space inside ++ tail) :: more)
  | branch {src : String} {condition : Expr} {pieces : List Piece}
      {space inside tail : List Char} {more : List (List Char)}
      (hspace : ∀ c ∈ space, isSpace c = true) (hinside : condition.Enclosed inside)
      (h : ∀ piece ∈ pieces, FullyBraced piece.stmt piece.closed piece.lines)
      (hbody : Braced (pieces.flatMap Piece.lines) tail more) :
      FullyBraced (.branch src condition (pieces.map Piece.stmt) none) false
        ((headerText .branch space inside ++ tail) :: more)
  | branchElse {src : String} {condition : Expr} {yes no : List Piece}
      {space inside tail other : List Char} {more others : List (List Char)}
      (hspace : ∀ c ∈ space, isSpace c = true) (hinside : condition.Enclosed inside)
      (hyes : ∀ piece ∈ yes, FullyBraced piece.stmt piece.closed piece.lines)
      (hno : ∀ piece ∈ no, FullyBraced piece.stmt piece.closed piece.lines)
      (hbody : Braced (yes.flatMap Piece.lines) tail more)
      (hother : Braced (no.flatMap Piece.lines) other others) (hapart : StopsRun isWord other) :
      FullyBraced (.branch src condition (yes.map Piece.stmt) (some (no.map Piece.stmt))) true
        ((headerText .branch space inside ++ tail) :: (more ++ ("else".toList ++ other) :: others))

theorem Stmt.FullyBraced.written {stmt : Stmt} {closed : Bool} {lines : List (List Char)}
    (h : stmt.FullyBraced closed lines) : stmt.Written closed lines := by
  induction h with
  | simple hdeed hspace => exact Written.simple hdeed hspace
  | block hpieces ih => exact Written.block ih
  | whileLoop hspace hinside hpieces hbody ih =>
      exact Written.whileLoop hspace hinside ih (Body.braced hbody)
  | forLoop hspace hinside hpieces hbody ih =>
      exact Written.forLoop hspace hinside ih (Body.braced hbody)
  | branch hspace hinside hpieces hbody ih =>
      exact Written.branch hspace hinside ih (Body.braced hbody)
  | branchElse hspace hinside hyes hno hbody hother hapart ihyes ihno =>
      exact Written.branchElse hspace hinside ihyes ihno (Body.braced hbody) (Body.braced hother)
        hapart

/-! ### Headers are logical lines -/

theorem Expr.Enclosed.walk {e : Expr} {inside : List Char} (h : e.Enclosed inside) :
    Walk isSeparator 0 inside 0 := by
  cases h with
  | intro hbefore he hbehind => exact he.walk.spaced (fun _ hc => hc) hbefore hbehind

theorem Expr.Enclosed.read {e : Expr} {inside : List Char} (h : e.Enclosed inside) :
    (Expr.read inside).unplaced = e.unplaced := by
  cases h with
  | intro hbefore he hbehind => exact he.read hbefore hbehind

theorem Clause.isPart {α : Type} {written : α → List Char → Prop}
    (hwritten : ∀ {a text}, written a text → Walk (· == ';') 0 text 0 ∧ Trimmed text)
    {clause : Option α} {text : List Char} (h : Clause written clause text) :
    Source.IsPart ';' text := by
  cases h with
  | absent => exact ⟨Walk.nil 0, Or.inl rfl⟩
  | present ha => exact ⟨(hwritten ha).1, Or.inr (hwritten ha).2⟩

/-- The clauses of a loop header are its parts between semicolons. -/
theorem Clauses.Written.parts {start : Option Simple} {condition : Option Expr}
    {next : Option Simple} {inside : List Char} (h : Written start condition next inside) :
    ∃ first second third, Separated ';' [first, second, third] inside ∧
      (∀ part ∈ [first, second, third], Source.IsPart ';' part) ∧
      Clause (fun s => s.deed.Written) start first ∧ Clause Expr.Inline condition second ∧
      Clause (fun s => s.deed.Written) next third := by
  cases h with
  | @intro first second third _ hstart hcondition hnext hseparated =>
      have hdeed : ∀ {s : Simple} {text : List Char}, s.deed.Written text →
          Walk (· == ';') 0 text 0 ∧ Trimmed text := fun h => ⟨h.walk, h.trimmed⟩
      have hexpr : ∀ {e : Expr} {text : List Char}, e.Inline text →
          Walk (· == ';') 0 text 0 ∧ Trimmed text := fun h =>
        ⟨h.walk_of Source.isSeparator_of_semicolon, h.trimmed⟩
      refine ⟨first, second, third, hseparated, ?_, hstart, hcondition, hnext⟩
      intro part hpart
      simp only [List.mem_cons, List.not_mem_nil, or_false] at hpart
      rcases hpart with rfl | rfl | rfl
      · exact hstart.isPart hdeed
      · exact hcondition.isPart hexpr
      · exact hnext.isPart hdeed

theorem Clauses.Written.walk {start : Option Simple} {condition : Option Expr}
    {next : Option Simple} {inside : List Char} (h : Written start condition next inside) :
    Walk (fun _ => false) 0 inside 0 := by
  obtain ⟨first, second, third, hseparated, hparts, -⟩ := h.parts
  refine hseparated.walk rfl ?_ rfl ?_
  · intro c hc
    cases hc
  · intro part hpart
    apply (hparts part hpart).1.mono
    intro c hc
    cases hc

theorem headerText_walk {sep : Char → Bool} (keyword : Keyword) {space inside : List Char}
    (hspace : ∀ c ∈ space, isSpace c = true) (h : Walk sep 0 inside 0) :
    Walk (· == ';') 0 (headerText keyword space inside) 0 := by
  have hword := Token.walk_word Source.isSeparator_of_semicolon keyword.word_chars 0
  have hparens : Walk (· == ';') 0 ('(' :: (inside ++ [')'])) 0 :=
    Walk.opening ((h.deeper _).append (Walk.closing (Walk.nil 0)))
  exact Walk.between Source.isSeparator_of_semicolon hword hspace hparens

theorem headerText_trimmed (keyword : Keyword) (space inside : List Char) :
    Trimmed (headerText keyword space inside) := by
  have hne : keyword.word.toList ≠ [] := by cases keyword <;> decide
  have hword := Token.trimmed_word keyword.word_chars hne
  have hclose : Trimmed [')'] := Trimmed.singleton (by decide)
  have hbetween := hword.between (space ++ '(' :: inside) hclose
  rwa [List.append_assoc, List.cons_append] at hbetween

theorem headerText_leads (keyword : Keyword) {space : List Char}
    (hspace : ∀ c ∈ space, isSpace c = true) (inside tail : List Char) :
    Shape.Leads keyword.word.toList (headerText keyword space inside ++ tail) := by
  rw [headerText, List.append_assoc, List.append_assoc]
  exact ⟨keyword.word_chars, _, rfl,
    stops_word_of_space hspace fun _ => StopsRun.cons (by decide) _⟩

/-! ### Statements are logical lines -/

/-- What every scan of lines relies on. -/
structure IsLayout (lines : List (List Char)) : Prop where
  starts : ∃ first more, lines = first :: more ∧ first ≠ ['}'] ∧ otherwise? first = none
  isLine : ∀ line ∈ lines, IsLine line
  level : Level lines

theorem balance_of_walk {sep : Char → Bool} {first last : Nat} {text : List Char}
    (h : Walk sep first text last) : balance text = 0 :=
  balance_of_not_breaksLine h.not_breaksLine

theorem balance_space {space : List Char} (h : ∀ c ∈ space, isSpace c = true) :
    balance space = 0 :=
  balance_of_walk (Walk.spaces (fun _ hc => Source.isSeparator_of_isSpace hc) h 0)

theorem balance_front {front space line : List Char} (hfront : Walk (· == ';') 0 front 0)
    (hspace : ∀ c ∈ space, isSpace c = true) :
    balance (front ++ (space ++ line)) = balance line := by
  rw [balance_append, balance_append, balance_of_walk hfront, balance_space hspace]
  omega

theorem isLine_pieces {pieces : List Piece} (h : ∀ piece ∈ pieces, IsLayout piece.lines) :
    ∀ line ∈ pieces.flatMap Piece.lines, IsLine line := by
  intro line hline
  obtain ⟨piece, hpiece, hmem⟩ := List.mem_flatMap.mp hline
  exact (h piece hpiece).isLine line hmem

theorem level_pieces {pieces : List Piece} (h : ∀ piece ∈ pieces, IsLayout piece.lines) :
    Level (pieces.flatMap Piece.lines) :=
  Level.flatMap fun piece hpiece => (h piece hpiece).level

section Fronts

variable {front tail : List Char} {lines more : List (List Char)} {pieces : List Piece}
  {closed : Bool}

theorem Braced.isLine (h : Braced lines tail more) (hwalk : Walk (· == ';') 0 front 0)
    (htrim : Trimmed front) (hlines : ∀ line ∈ lines, IsLine line) :
    ∀ line ∈ (front ++ tail) :: more, IsLine line := by
  have hopen : IsLine ['{'] :=
    IsLine.ended (Or.inr rfl) (Walk.nil 0) (Trimmed.singleton (by decide))
  have hinner : ∀ line ∈ lines ++ [['}']], IsLine line := by
    intro line hline
    rcases List.mem_append.mp hline with hmem | hmem
    · exact hlines line hmem
    · rw [List.mem_singleton.mp hmem]
      exact IsLine.closing
  intro line hline
  cases h with
  | beside hspace =>
      rcases List.mem_cons.mp hline with rfl | hmem
      · exact IsLine.behind hwalk htrim hspace hopen (by decide)
      · exact hinner line hmem
  | below =>
      rw [List.append_nil] at hline
      rcases List.mem_cons.mp hline with rfl | hmem
      · exact IsLine.front hwalk htrim
      · rcases List.mem_cons.mp hmem with rfl | hmem
        · exact hopen
        · exact hinner line hmem

theorem Braced.level (h : Braced lines tail more) (hwalk : Walk (· == ';') 0 front 0)
    (hlines : Level lines) : Level ((front ++ tail) :: more) := by
  cases h with
  | beside hspace =>
      have hbrace : balance ['{'] = 1 := by decide
      exact Level.block ((balance_front hwalk hspace).trans hbrace) hlines
  | below =>
      rw [List.append_nil]
      exact (Level.single (balance_of_walk hwalk)).append (Level.block (by decide) hlines)

theorem Body.isLine (h : Body pieces closed tail more) (hwalk : Walk (· == ';') 0 front 0)
    (htrim : Trimmed front) (hpieces : ∀ piece ∈ pieces, IsLayout piece.lines) :
    ∀ line ∈ (front ++ tail) :: more, IsLine line := by
  cases h with
  | braced h => exact h.isLine hwalk htrim (isLine_pieces hpieces)
  | @beside piece space first more hspace hlines hfirst =>
      have hpiece := hpieces piece List.mem_cons_self
      obtain ⟨start, rest, hstart, hne, -⟩ := hpiece.starts
      have hisLine := hpiece.isLine
      rw [hlines] at hstart hisLine
      cases hstart
      intro line hline
      rcases List.mem_cons.mp hline with rfl | hmem
      · exact IsLine.behind hwalk htrim hspace (hisLine first List.mem_cons_self) hne
      · exact hisLine line (List.mem_cons_of_mem _ hmem)
  | @below piece first more hlines hfirst =>
      have hisLine := (hpieces piece List.mem_cons_self).isLine
      rw [hlines] at hisLine
      rw [List.append_nil]
      intro line hline
      rcases List.mem_cons.mp hline with rfl | hmem
      · exact IsLine.front hwalk htrim
      · exact hisLine line hmem

theorem Body.level (h : Body pieces closed tail more) (hwalk : Walk (· == ';') 0 front 0)
    (hpieces : ∀ piece ∈ pieces, IsLayout piece.lines) : Level ((front ++ tail) :: more) := by
  cases h with
  | braced h => exact h.level hwalk (level_pieces hpieces)
  | @beside piece space first more hspace hlines hfirst =>
      have hlevel := (hpieces piece List.mem_cons_self).level
      rw [hlines] at hlevel
      exact hlevel.cons_congr (balance_front hwalk hspace)
  | @below piece first more hlines hfirst =>
      have hlevel := (hpieces piece List.mem_cons_self).level
      rw [hlines] at hlevel
      rw [List.append_nil]
      exact (Level.single (balance_of_walk hwalk)).append hlevel

/-- A header with its body is a layout. -/
theorem isLayout_header {keyword : Keyword} {space inside : List Char} {sep : Char → Bool}
    (hspace : ∀ c ∈ space, isSpace c = true) (hinside : Walk sep 0 inside 0)
    (hbody : Body pieces closed tail more) (hpieces : ∀ piece ∈ pieces, IsLayout piece.lines) :
    IsLayout ((headerText keyword space inside ++ tail) :: more) := by
  have hwalk := headerText_walk keyword hspace hinside
  have htrim := headerText_trimmed keyword space inside
  have hleads := headerText_leads keyword hspace inside tail
  refine ⟨⟨_, more, rfl, ?_, ?_⟩, hbody.isLine hwalk htrim hpieces, hbody.level hwalk hpieces⟩
  · cases keyword <;> exact fun heq => nomatch heq
  · apply hleads.otherwise?
    cases keyword <;> decide

end Fronts

theorem simpleLine_ne (text space : List Char) {c : Char} (hc : c ≠ ';') :
    text ++ (space ++ [';']) ≠ [c] := by
  intro heq
  have hlast := congrArg List.getLast? heq
  simp at hlast
  exact hc hlast.symm

/-- The lines of a statement are a layout. -/
theorem Stmt.Written.isLayout {stmt : Stmt} {closed : Bool} {lines : List (List Char)}
    (h : stmt.Written closed lines) : IsLayout lines := by
  induction h with
  | @simple s text space hdeed hspace =>
      have hend : StopsRun isWord (space ++ [';']) :=
        stops_word_of_space hspace fun _ => StopsRun.cons (by decide) _
      obtain ⟨word, hleads, -, -, -, helse⟩ := hdeed.leads hend
      have hline : IsLine (text ++ (space ++ [';'])) :=
        IsLine.behind hdeed.walk hdeed.trimmed hspace
          (IsLine.ended (Or.inl rfl) (Walk.nil 0) (Trimmed.singleton (by decide))) (by decide)
      refine ⟨⟨_, [], rfl, ?_, hleads.otherwise? helse⟩, ?_, Level.single ?_⟩
      · exact simpleLine_ne _ _ (by decide)
      · intro line hmem
        rw [List.mem_singleton.mp hmem]
        exact hline
      · exact balance_front hdeed.walk hspace
  | @block src pieces hpieces ih =>
      refine ⟨⟨['{'], _, rfl, by decide, by decide⟩, ?_, ?_⟩
      · intro line hline
        rcases List.mem_cons.mp hline with rfl | hmem
        · exact IsLine.ended (Or.inr rfl) (Walk.nil 0) (Trimmed.singleton (by decide))
        · rcases List.mem_append.mp hmem with hinner | hclose
          · exact isLine_pieces ih line hinner
          · rw [List.mem_singleton.mp hclose]
            exact IsLine.closing
      · exact Level.block (by decide) (level_pieces ih)
  | whileLoop hspace hinside hpieces hbody ih => exact isLayout_header hspace hinside.walk hbody ih
  | forLoop hspace hinside hpieces hbody ih => exact isLayout_header hspace hinside.walk hbody ih
  | branch hspace hinside hpieces hbody ih => exact isLayout_header hspace hinside.walk hbody ih
  | @branchElse _ _ _ _ _ space inside tail _ more _ hspace hinside hyes hno hbody hother hapart
      ihyes ihno =>
      have hfirst : IsLayout ((headerText .branch space inside ++ tail) :: more) :=
        isLayout_header hspace hinside.walk hbody ihyes
      have helse : Walk (· == ';') 0 "else".toList 0 :=
        Token.walk_word Source.isSeparator_of_semicolon (by decide) 0
      have htrim : Trimmed "else".toList := Token.trimmed_word (by decide) (by decide)
      obtain ⟨first, rest, hlines, hne, hnone⟩ := hfirst.starts
      cases hlines
      refine ⟨⟨_, _, rfl, hne, hnone⟩, ?_, ?_⟩
      · intro line hline
        rw [← List.cons_append] at hline
        rcases List.mem_append.mp hline with hmem | hmem
        · exact hfirst.isLine line hmem
        · exact hother.isLine helse htrim ihno line hmem
      · exact hfirst.level.append (hother.level helse ihno)

end ToyC
