import ToyC.Proofs.Syntax.Program

/-!
What can be written. Every program of expressions, statements and functions that
fit into logical lines has a text that writes it: one space where words would run
into each other, bodies in braces, and each logical line on a line of its own.
-/

namespace ToyC

open Source (Separated LaidOut isSpace isBracket)
open Text (isBlank Trimmed StopsRun)
open Shape (IsType)

theorem exists_all₂ {α β : Type} {r : α → β → Prop} {xs : List α} (h : ∀ x ∈ xs, ∃ y, r x y) :
    ∃ ys, List.Forall₂ r xs ys := by
  induction xs with
  | nil => exact ⟨[], List.Forall₂.nil⟩
  | cons x xs ih =>
      obtain ⟨y, hy⟩ := h x List.mem_cons_self
      obtain ⟨ys, hys⟩ := ih fun z hz => h z (List.mem_cons_of_mem _ hz)
      exact ⟨y :: ys, List.Forall₂.cons hy hys⟩

theorem space_isSpace : ∀ c ∈ [' '], isSpace c = true := by decide

/-! ### Expressions and lists -/

/-- The tokens of an expression may stand without gaps. -/
theorem Expr.Printable.inline {e : Expr} (h : e.Printable) :
    e.Inline ((e.tokens 0).map (Token.spell true)).flatten := by
  refine ⟨h, Spaced.flatten _ _, ?_⟩
  have hflow := h.writable.flow 0
  generalize e.tokens 0 = tokens at hflow
  cases hflow with
  | @cons _ _ token tokens hplain hfits rest =>
      obtain ⟨c, more, hspell, -, hblank⟩ := Token.head_of_opens hfits hplain true
      rw [List.map_cons, List.flatten_cons, hspell]
      exact StopsRun.cons hblank _

theorem Expr.Printable.exists_inline {e : Expr} (h : e.Printable) : ∃ text, e.Inline text :=
  ⟨_, h.inline⟩

theorem Separated.exists_text (separator : Char) {parts : List (List Char)} (hne : parts ≠ []) :
    ∃ text, Separated separator parts text := by
  induction parts with
  | nil => exact absurd rfl hne
  | cons part parts ih =>
      cases parts with
      | nil => exact ⟨_, Separated.last (List.forall_mem_nil _) (List.forall_mem_nil _)⟩
      | cons second parts =>
          obtain ⟨text, htext⟩ := ih (List.cons_ne_nil _ _)
          exact ⟨_, Separated.cons (List.forall_mem_nil _) (List.forall_mem_nil _) htext⟩

/-! ### Statements without statements inside -/

/-- A declared name and a value that can be written. -/
structure Declarator.Printable (d : Declarator) : Prop where
  name : IsIdent d.name
  value : ∀ e ∈ d.value, e.Printable

/-- A statement without statements inside that can be written. -/
inductive Deed.Printable : Deed → Prop
  | returns {value : Option Expr} (h : ∀ e ∈ value, e.Printable) : Printable (.returns value)
  | prints {fmt : String} {args : List Expr} (hfmt : ∀ c ∈ fmt.toList, isBracket c = false)
      (hargs : ∀ e ∈ args, e.Printable) : Printable (.prints fmt args)
  | declares {type : String} {declarators : List Declarator} (htype : IsType type.toList)
      (hne : declarators ≠ []) (h : ∀ d ∈ declarators, d.Printable) :
      Printable (.declares type declarators)
  | assigns {target : String} {change : Change} (htarget : IsIdent target)
      (h : ∀ e ∈ change.value?, e.Printable) : Printable (.assigns target change)
  | evaluates {pos : Position} {func : String} {args : List Expr} (hfunc : IsIdent func)
      (h : (Expr.call pos func args).Printable) : Printable (.evaluates (.call pos func args))
  | breaks : Printable .breaks
  | continues : Printable .continues

theorem Declarator.Printable.exists_written {d : Declarator} (h : d.Printable) :
    ∃ text, d.Written text := by
  obtain ⟨name, value⟩ := d
  cases value with
  | none => exact ⟨_, Written.bare h.name⟩
  | some e =>
      obtain ⟨text, htext⟩ := (h.value e rfl).exists_inline
      exact ⟨_, Written.valued h.name (List.forall_mem_nil _) (List.forall_mem_nil _) htext⟩

theorem Change.exists_written {change : Change} (h : ∀ e ∈ change.value?, e.Printable) :
    ∃ text, change.Written text := by
  cases change with
  | set e =>
      obtain ⟨text, htext⟩ := (h e rfl).exists_inline
      exact ⟨_, Written.set (List.forall_mem_nil _) htext⟩
  | update op e =>
      obtain ⟨text, htext⟩ := (h e rfl).exists_inline
      exact ⟨_, Written.update (List.forall_mem_nil _) htext⟩
  | increment => exact ⟨_, Written.increment⟩
  | decrement => exact ⟨_, Written.decrement⟩

theorem Deed.Printable.exists_written {d : Deed} (h : d.Printable) : ∃ text, d.Written text := by
  cases h with
  | @returns value hvalue =>
      cases value with
      | none => exact ⟨_, Written.returnsNothing⟩
      | some e =>
          obtain ⟨text, htext⟩ := (hvalue e rfl).exists_inline
          exact ⟨_, Written.returns space_isSpace htext fun hnil => nomatch hnil⟩
  | @prints fmt args hfmt hargs =>
      obtain ⟨texts, htexts⟩ := exists_all₂ fun e he => (hargs e he).exists_inline
      obtain ⟨inside, hinside⟩ :=
        Separated.exists_text ',' (List.cons_ne_nil (quoteText fmt) texts)
      exact ⟨_, Written.prints hfmt htexts (List.forall_mem_nil _) hinside⟩
  | @declares type declarators htype hne hdeclarators =>
      obtain ⟨texts, htexts⟩ := exists_all₂ fun d hd => (hdeclarators d hd).exists_written
      have hfilled : texts ≠ [] := by
        rintro rfl
        cases htexts
        exact hne rfl
      obtain ⟨text, htext⟩ := Separated.exists_text ',' hfilled
      have hparts : ∀ part ∈ texts, Trimmed part := by
        intro part hpart
        obtain ⟨d, hd⟩ := exists_of_forall₂ htexts part hpart
        exact hd.trimmed
      obtain ⟨hlist, htrim⟩ := htext.trim hparts
      exact ⟨_, Written.declares htype htexts space_isSpace (by decide) hlist htrim⟩
  | assigns htarget hchange =>
      obtain ⟨text, htext⟩ := Change.exists_written hchange
      exact ⟨_, Written.assigns htarget (List.forall_mem_nil _) htext⟩
  | evaluates hfunc hcall =>
      obtain ⟨text, htext⟩ := hcall.exists_inline
      exact ⟨_, Written.evaluates hfunc htext⟩
  | breaks => exact ⟨_, Written.breaks⟩
  | continues => exact ⟨_, Written.continues⟩

/-! ### Statements -/

/-- A statement that can be written. -/
inductive Stmt.Printable : Stmt → Prop
  | simple {s : Simple} (h : s.deed.Printable) : Printable (.simple s)
  | block {src : String} {body : List Stmt} (h : ∀ stmt ∈ body, Printable stmt) :
      Printable (.block src body)
  | whileLoop {src : String} {condition : Expr} {body : List Stmt}
      (hcondition : condition.Printable) (h : ∀ stmt ∈ body, Printable stmt) :
      Printable (.whileLoop src condition body)
  | forLoop {src : String} {start : Option Simple} {condition : Option Expr}
      {next : Option Simple} {body : List Stmt} (hstart : ∀ s ∈ start, s.deed.Printable)
      (hcondition : ∀ e ∈ condition, e.Printable) (hnext : ∀ s ∈ next, s.deed.Printable)
      (h : ∀ stmt ∈ body, Printable stmt) : Printable (.forLoop src start condition next body)
  | branch {src : String} {condition : Expr} {yes : List Stmt} {no : Option (List Stmt)}
      (hcondition : condition.Printable) (hyes : ∀ stmt ∈ yes, Printable stmt)
      (hno : ∀ body ∈ no, ∀ stmt ∈ body, Printable stmt) :
      Printable (.branch src condition yes no)

theorem Expr.Printable.exists_enclosed {e : Expr} (h : e.Printable) :
    ∃ inside, e.Enclosed inside := by
  obtain ⟨text, htext⟩ := h.exists_inline
  exact ⟨_, Enclosed.intro (List.forall_mem_nil _) htext (List.forall_mem_nil _)⟩

theorem Clause.exists_text {α : Type} {written : α → List Char → Prop} {clause : Option α}
    (h : ∀ a ∈ clause, ∃ text, written a text) : ∃ text, Clause written clause text := by
  cases clause with
  | none => exact ⟨_, absent⟩
  | some a =>
      obtain ⟨text, htext⟩ := h a rfl
      exact ⟨text, present htext⟩

/-- Statements that can be written one by one can be written one behind the other. -/
theorem exists_pieces {written : Stmt → Bool → List (List Char) → Prop} {body : List Stmt}
    (h : ∀ stmt ∈ body, ∃ closed lines, written stmt closed lines) :
    ∃ pieces : List Piece, pieces.map Piece.stmt = body ∧
      ∀ piece ∈ pieces, written piece.stmt piece.closed piece.lines := by
  induction body with
  | nil => exact ⟨[], rfl, List.forall_mem_nil _⟩
  | cons stmt body ih =>
      obtain ⟨closed, lines, hstmt⟩ := h stmt List.mem_cons_self
      obtain ⟨pieces, rfl, hpieces⟩ := ih fun other hother =>
        h other (List.mem_cons_of_mem _ hother)
      exact ⟨⟨stmt, closed, lines⟩ :: pieces, rfl, List.forall_mem_cons.mpr ⟨hstmt, hpieces⟩⟩

theorem Braced.of_lines (lines : List (List Char)) : Braced lines [' ', '{'] (lines ++ [['}']]) :=
  Braced.beside space_isSpace

theorem Stmt.Printable.exists_fullyBraced {stmt : Stmt} (h : stmt.Printable) :
    ∃ closed lines, stmt.FullyBraced closed lines := by
  induction h with
  | simple hdeed =>
      obtain ⟨text, htext⟩ := hdeed.exists_written
      exact ⟨_, _, FullyBraced.simple htext (List.forall_mem_nil _)⟩
  | block hbody ih =>
      obtain ⟨pieces, rfl, hpieces⟩ := exists_pieces ih
      exact ⟨_, _, FullyBraced.block hpieces⟩
  | whileLoop hcondition hbody ih =>
      obtain ⟨inside, hinside⟩ := hcondition.exists_enclosed
      obtain ⟨pieces, rfl, hpieces⟩ := exists_pieces ih
      exact ⟨_, _, FullyBraced.whileLoop space_isSpace hinside hpieces (Braced.of_lines _)⟩
  | forLoop hstart hcondition hnext hbody ih =>
      obtain ⟨first, hfirst⟩ := Clause.exists_text fun s hs => (hstart s hs).exists_written
      obtain ⟨second, hsecond⟩ := Clause.exists_text fun e he => (hcondition e he).exists_inline
      obtain ⟨third, hthird⟩ := Clause.exists_text fun s hs => (hnext s hs).exists_written
      obtain ⟨inside, hinside⟩ :=
        Separated.exists_text ';' (List.cons_ne_nil first [second, third])
      obtain ⟨pieces, rfl, hpieces⟩ := exists_pieces ih
      exact ⟨_, _, FullyBraced.forLoop space_isSpace
        (Clauses.Written.intro hfirst hsecond hthird hinside) hpieces (Braced.of_lines _)⟩
  | @branch src condition yes no hcondition hyes hno ihyes ihno =>
      obtain ⟨inside, hinside⟩ := hcondition.exists_enclosed
      obtain ⟨pieces, rfl, hpieces⟩ := exists_pieces ihyes
      cases no with
      | none =>
          exact ⟨_, _, FullyBraced.branch space_isSpace hinside hpieces (Braced.of_lines _)⟩
      | some body =>
          obtain ⟨others, rfl, hothers⟩ := exists_pieces (ihno body rfl)
          exact ⟨_, _, FullyBraced.branchElse space_isSpace hinside hpieces hothers
            (Braced.of_lines _) (Braced.of_lines _) (StopsRun.cons (by decide) _)⟩

theorem Stmt.Printable.exists_written {stmt : Stmt} (h : stmt.Printable) :
    ∃ closed lines, stmt.Written closed lines := by
  obtain ⟨closed, lines, hbraced⟩ := h.exists_fullyBraced
  exact ⟨closed, lines, hbraced.written⟩

/-! ### Programs -/

/-- A function that can be written. -/
structure Function.Printable (f : Function) : Prop where
  returns : IsType f.signature.returns.toList
  name : IsIdent f.name
  params : ∀ p ∈ f.signature.params, p.type = "int" ∧ IsIdent p.name
  body : ∀ stmt ∈ f.body, stmt.Printable

theorem ParamList.exists_written {params : List Param}
    (h : ∀ p ∈ params, p.type = "int" ∧ IsIdent p.name) : ∃ inside, Written params inside := by
  cases params with
  | nil => exact ⟨[], Written.empty (List.forall_mem_nil _)⟩
  | cons p params =>
      have hparam : ∀ q ∈ p :: params, ∃ text, q.Written text := by
        intro q hq
        obtain ⟨type, name⟩ := q
        obtain ⟨rfl, hname⟩ := h _ hq
        exact ⟨_, Param.Written.intro hname space_isSpace (by decide)⟩
      obtain ⟨texts, htexts⟩ := exists_all₂ hparam
      have hne : texts ≠ [] := by
        rintro rfl
        cases htexts
      obtain ⟨inside, hinside⟩ := Separated.exists_text ',' hne
      exact ⟨inside, Written.some htexts hinside⟩

theorem Function.Printable.exists_written {f : Function} (h : f.Printable) :
    ∃ lines, f.Written lines := by
  obtain ⟨hreturns, hname, hparams, hbody⟩ := h
  obtain ⟨⟨type, name, params⟩, lines, body⟩ := f
  obtain ⟨inside, hinside⟩ := ParamList.exists_written hparams
  obtain ⟨pieces, rfl, hpieces⟩ := exists_pieces fun stmt hstmt => (hbody stmt hstmt).exists_written
  have hsignature := Signature.Written.intro hreturns hname space_isSpace (by decide)
    (List.forall_mem_nil _) hinside
  exact ⟨_, Written.intro hsignature hpieces (Braced.beside space_isSpace)⟩

theorem Source.LaidOut.exists_text (lines : List (List Char)) : ∃ text, LaidOut lines text := by
  induction lines with
  | nil => exact ⟨[], LaidOut.nil (List.forall_mem_nil _)⟩
  | cons line lines ih =>
      obtain ⟨text, htext⟩ := ih
      exact ⟨_, LaidOut.broken (List.forall_mem_nil _) (List.forall_mem_nil _) htext⟩

/-- A program of functions that can be written has a text, and every text of it, however it is
laid out, reads as that program. -/
theorem Program.read_printable {fs : List Function} (hprintable : ∀ f ∈ fs, f.Printable)
    (hnames : (fs.map Function.name).Nodup) :
    (∃ text, Written fs text) ∧ ∀ text, Written fs text →
      (Program.read text).functions.map (fun entry => (entry.1, entry.2.unplaced)) =
        fs.map fun f => (f.name, f.unplaced) := by
  constructor
  · obtain ⟨parts, hparts⟩ := exists_all₂ fun f hf => (hprintable f hf).exists_written
    obtain ⟨text, htext⟩ := LaidOut.exists_text parts.flatten
    exact ⟨text, parts, hparts, htext⟩
  · intro text htext
    exact Program.read_of_written hnames htext

section Countdown

/-- Count a number down to zero with a call for each step, then return it. -/
def countdown : Function where
  signature := { returns := "int", name := "f", params := [{ type := "int", name := "n" }] }
  lines := []
  body := [
    .forLoop "" none (some (.name {} "n")) (some { src := "", deed := .assigns "n" .decrement })
      [.simple { src := "", deed := .evaluates (.call {} "g" []) }],
    .simple { src := "", deed := .returns (some (.name {} "n")) }]

theorem countdown_idents : IsIdent "f" ∧ IsIdent "g" ∧ IsIdent "n" :=
  ⟨⟨by decide, by decide⟩, ⟨by decide, by decide⟩, ⟨by decide, by decide⟩⟩

theorem countdown_int : IsType "int".toList :=
  IsType.plain (Shape.IsPlainType.base (by decide))

theorem countdown_counter : (Expr.name {} "n").Printable := by
  refine ⟨Expr.Writable.name {} countdown_idents.2.2.isName, by decide, ?_⟩
  intro token htoken
  rw [List.mem_singleton.mp htoken]
  trivial

theorem countdown_call : (Expr.call {} "g" []).Printable := by
  refine ⟨Expr.Writable.call {} countdown_idents.2.1.isName (List.forall_mem_nil _), by decide, ?_⟩
  intro token htoken
  simp only [Expr.tokens, Expr.argTokens, List.mem_cons, List.not_mem_nil, or_false] at htoken
  rcases htoken with rfl | rfl | rfl <;> trivial

theorem countdown_printable : countdown.Printable := by
  obtain ⟨hf, hg, hn⟩ := countdown_idents
  refine ⟨countdown_int, hf, ?_, ?_⟩
  · intro p hp
    rw [List.mem_singleton.mp hp]
    exact ⟨rfl, hn⟩
  · intro stmt hstmt
    simp only [countdown, List.mem_cons, List.not_mem_nil, or_false] at hstmt
    rcases hstmt with rfl | rfl
    · apply Stmt.Printable.forLoop
      · intro s hs
        cases hs
      · intro e he
        cases he
        exact countdown_counter
      · intro s hs
        cases hs
        exact Deed.Printable.assigns hn fun e he => nomatch he
      · intro stmt hbody
        rw [List.mem_singleton.mp hbody]
        exact Stmt.Printable.simple (Deed.Printable.evaluates hg countdown_call)
    · apply Stmt.Printable.simple
      apply Deed.Printable.returns
      intro e he
      cases he
      exact countdown_counter

theorem countdown_clauses : Clauses.Written none (some (.name {} "n"))
    (some { src := "", deed := .assigns "n" .decrement }) ";n;n--".toList := by
  have hnone : ∀ c ∈ ([] : List Char), isSpace c = true := List.forall_mem_nil _
  have hdecrement : Deed.Written (.assigns "n" .decrement) "n--".toList :=
    Deed.Written.assigns countdown_idents.2.2 hnone Change.Written.decrement
  have hlast : Separated ';' ["n--".toList] ([] ++ "n--".toList ++ []) :=
    Separated.last hnone hnone
  have hcondition : Separated ';' ["n".toList, "n--".toList]
      ([] ++ "n".toList ++ [] ++ ';' :: "n--".toList) := Separated.cons hnone hnone hlast
  have hstart : Separated ';' [[], "n".toList, "n--".toList]
      ([] ++ [] ++ [] ++ ';' :: "n;n--".toList) := Separated.cons hnone hnone hcondition
  exact Clauses.Written.intro Clause.absent (Clause.present countdown_counter.inline)
    (Clause.present hdecrement) hstart

/-- The body of the loop stands behind its header, without braces. -/
theorem countdown_lines : countdown.Written ["int f(int n)".toList, ['{'],
    "for(;n;n--) g();".toList, "return n;".toList, ['}']] := by
  obtain ⟨hf, hg, hn⟩ := countdown_idents
  have hnone : ∀ c ∈ ([] : List Char), isSpace c = true := List.forall_mem_nil _
  have hparam : Param.Written ⟨"int", "n"⟩ ("int".toList ++ ([' '] ++ "n".toList)) :=
    Param.Written.intro hn space_isSpace (by decide)
  have hlist : Separated ',' ["int n".toList] ([] ++ "int n".toList ++ []) :=
    Separated.last hnone hnone
  have hsignature : countdown.signature.Written "int f(int n)".toList :=
    Signature.Written.intro countdown_int hf space_isSpace (by decide) hnone
      (ParamList.Written.some (List.Forall₂.cons hparam List.Forall₂.nil) hlist)
  let call : Piece :=
    ⟨.simple { src := "", deed := .evaluates (.call {} "g" []) }, true, ["g();".toList]⟩
  have hcall : call.stmt.Written true ["g()".toList ++ ([] ++ [';'])] :=
    Stmt.Written.simple (Deed.Written.evaluates hg countdown_call.inline) hnone
  let loop : Piece :=
    ⟨.forLoop "" none (some (.name {} "n")) (some { src := "", deed := .assigns "n" .decrement })
      [call.stmt], true, ["for(;n;n--) g();".toList]⟩
  have hloop : loop.stmt.Written loop.closed loop.lines := by
    have hbody : Body [call] call.closed ([' '] ++ "g();".toList) [] :=
      Body.beside space_isSpace rfl (by decide)
    have hpieces : ∀ piece ∈ [call], piece.stmt.Written piece.closed piece.lines := by
      intro piece hpiece
      rw [List.mem_singleton.mp hpiece]
      exact hcall
    exact Stmt.Written.forLoop hnone countdown_clauses hpieces hbody
  let last : Piece :=
    ⟨.simple { src := "", deed := .returns (some (.name {} "n")) }, true, ["return n;".toList]⟩
  have hlast : last.stmt.Written true ["return n".toList ++ ([] ++ [';'])] :=
    Stmt.Written.simple (Deed.Written.returns space_isSpace countdown_counter.inline
      fun hnil => nomatch hnil) hnone
  have hpieces : ∀ piece ∈ [loop, last], piece.stmt.Written piece.closed piece.lines := by
    intro piece hpiece
    simp only [List.mem_cons, List.not_mem_nil, or_false] at hpiece
    rcases hpiece with rfl | rfl
    · exact hloop
    · exact hlast
  have hfunction : countdown.Written (("int f(int n)".toList ++ []) :: ['{'] ::
      ([loop, last].flatMap Piece.lines ++ [['}']])) :=
    Function.Written.intro hsignature hpieces Braced.below
  exact hfunction

theorem countdown_written : Program.Written [countdown]
    "int f(int n)\n\x7b for(;n;n--) g(); return n; \x7d".toList := by
  have hblank : ∀ c ∈ [' '], isBlank c = true := by decide
  have hend : LaidOut [] [] := LaidOut.nil (List.forall_mem_nil _)
  have hclose : LaidOut [['}']] ([' '] ++ (['}'] ++ [])) :=
    LaidOut.ended hblank ⟨'}', rfl, by decide⟩ hend
  have hreturn : LaidOut ["return n;".toList, ['}']]
      ([' '] ++ ("return n;".toList ++ " \x7d".toList)) :=
    LaidOut.ended hblank ⟨';', rfl, by decide⟩ hclose
  have hloop : LaidOut ["for(;n;n--) g();".toList, "return n;".toList, ['}']]
      ([' '] ++ ("for(;n;n--) g();".toList ++ " return n; \x7d".toList)) :=
    LaidOut.ended hblank ⟨';', rfl, by decide⟩ hreturn
  have hopen : LaidOut [['{'], "for(;n;n--) g();".toList, "return n;".toList, ['}']]
      ([] ++ (['{'] ++ " for(;n;n--) g(); return n; \x7d".toList)) :=
    LaidOut.ended (List.forall_mem_nil _) ⟨'{', rfl, by decide⟩ hloop
  have hfront : LaidOut ["int f(int n)".toList, ['{'], "for(;n;n--) g();".toList,
      "return n;".toList, ['}']]
      ([] ++ ("int f(int n)".toList ++
        ([] ++ '\n' :: "\x7b for(;n;n--) g(); return n; \x7d".toList))) :=
    LaidOut.broken (List.forall_mem_nil _) (List.forall_mem_nil _) hopen
  exact ⟨[_], List.Forall₂.cons countdown_lines List.Forall₂.nil, hfront⟩

theorem Program.read_printable_countdown :
    (∀ f ∈ [countdown], f.Printable) ∧ ([countdown].map Function.name).Nodup ∧
      (Program.read "int f(int n)\n\x7b for(;n;n--) g(); return n; \x7d".toList).functions.map
          (fun entry => (entry.1, entry.2.unplaced)) =
        [countdown].map fun f => (f.name, f.unplaced) := by
  have hprintable : ∀ f ∈ [countdown], f.Printable := by
    intro f hf
    rw [List.mem_singleton.mp hf]
    exact countdown_printable
  have hnames : ([countdown].map Function.name).Nodup := by decide
  exact ⟨hprintable, hnames, (read_printable hprintable hnames).2 _ countdown_written⟩

end Countdown

end ToyC
