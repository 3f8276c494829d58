import ToyC.Proofs.Syntax.Printable
import ToyC.Proofs.Syntax.Unbraced

/-!
Braces around one statement are optional. A text with braces around some of the bodies
that are one statement, or around none of them, is read as the text with all braces.
Only in front of the word for the other branch they make a difference: a statement that
ends with a branch without another one takes the word as its own.
-/

namespace ToyC

open Source (LaidOut splitLines isSpace)
open Text (isWord StopsRun)

/-! ### Texts of statements -/

/-- A text that writes statements one behind the other, on lines that write each of them. -/
def Printed (written : Stmt → Bool → List (List Char) → Prop) (stmts : List Stmt)
    (text : List Char) : Prop :=
  ∃ pieces : List Piece, pieces.map Piece.stmt = stmts ∧
    (∀ piece ∈ pieces, written piece.stmt piece.closed piece.lines) ∧
    LaidOut (pieces.flatMap Piece.lines) text

/-- The statements that a text is read as, with their places and their lines forgotten. -/
def statementsOf (text : List Char) : List Stmt :=
  (readBlock (splitLines text)).map Stmt.unplaced

theorem Printed.mono {written written' : Stmt → Bool → List (List Char) → Prop}
    (hmono : ∀ {stmt closed lines}, written stmt closed lines → written' stmt closed lines)
    {stmts : List Stmt} {text : List Char} (h : Printed written stmts text) :
    Printed written' stmts text := by
  obtain ⟨pieces, hstmts, hpieces, htext⟩ := h
  exact ⟨pieces, hstmts, fun piece hpiece => hmono (hpieces piece hpiece), htext⟩

/-- A text is read as the statements that it writes. -/
theorem Printed.read {stmts : List Stmt} {text : List Char} (h : Printed Stmt.Written stmts text) :
    statementsOf text = stmts.map Stmt.unplaced := by
  obtain ⟨pieces, rfl, hpieces, htext⟩ := h
  have hlayout : ∀ piece ∈ pieces, IsLayout piece.lines := fun piece hpiece =>
    (hpieces piece hpiece).isLayout
  rw [statementsOf, Source.splitLines_laidOut htext (isLine_pieces hlayout),
    readBlock_written hpieces]

/-- Statements that can be written have a text with each body in braces. -/
theorem Printed.exists_fullyBraced {stmts : List Stmt} (h : ∀ stmt ∈ stmts, stmt.Printable) :
    ∃ text, Printed Stmt.FullyBraced stmts text := by
  obtain ⟨pieces, hstmts, hpieces⟩ := exists_pieces fun stmt hstmt =>
    (h stmt hstmt).exists_fullyBraced
  obtain ⟨text, htext⟩ := LaidOut.exists_text (pieces.flatMap Piece.lines)
  exact ⟨text, pieces, hstmts, hpieces, htext⟩

/-! ### Bodies that take the word for the other branch -/

/-- Lines that write a branch and another one, the first body without braces and with a branch at
its end that has no other one. -/
inductive Dangling (condition : Expr) : Stmt → List Stmt → List (List Char) → Prop
  | intro {yes : Piece} {no : List Piece} {closed : Bool} {space inside tail other : List Char}
      {more others : List (List Char)} (hspace : ∀ c ∈ space, isSpace c = true)
      (hinside : condition.Enclosed inside) (hyes : yes.stmt.Written yes.closed yes.lines)
      (hno : ∀ piece ∈ no, piece.stmt.Written piece.closed piece.lines)
      (hbody : Body [yes] false tail more) (hother : Body no closed other others)
      (hapart : StopsRun isWord other) :
      Dangling condition yes.stmt (no.map Piece.stmt)
        ((headerText .branch space inside ++ tail) :: (more ++ ("else".toList ++ other) :: others))

section Dangling

variable {no : List Piece} {closedNo : Bool} {other : List Char} {others : List (List Char)}

/-- A body that is not closed is one statement without braces, and what continues the statement
continues the body. -/
theorem Body.continued {pieces : List Piece} {tail : List Char} {more rest : List (List Char)}
    (h : Body pieces false tail more)
    (hpieces : ∀ piece ∈ pieces, piece.closed = false →
      ∃ whole closed, Stmt.Written whole closed (piece.lines ++ rest)) :
    ∃ whole : Piece, whole.stmt.Written whole.closed whole.lines ∧
      Body [whole] whole.closed tail (more ++ rest) := by
  generalize hopen : false = closed at h
  cases h with
  | braced h => exact absurd hopen Bool.false_ne_true
  | @beside piece space first more hspace hlines hfirst =>
      obtain ⟨whole, closed, hwhole⟩ := hpieces piece List.mem_cons_self hopen.symm
      rw [hlines, List.cons_append] at hwhole
      exact ⟨⟨whole, closed, _⟩, hwhole, Body.beside hspace rfl hfirst⟩
  | @below piece first more hlines hfirst =>
      obtain ⟨whole, closed, hwhole⟩ := hpieces piece List.mem_cons_self hopen.symm
      rw [hlines, List.cons_append] at hwhole
      exact ⟨⟨whole, closed, _⟩, hwhole, Body.below rfl hfirst⟩

/-- A statement that is not closed and the word for the other branch behind it are one statement. -/
theorem Stmt.Written.continued {stmt : Stmt} {closed : Bool} {lines : List (List Char)}
    (h : stmt.Written closed lines) (hopen : closed = false)
    (hno : ∀ piece ∈ no, piece.stmt.Written piece.closed piece.lines)
    (hother : Body no closedNo other others) (hapart : StopsRun isWord other) :
    ∃ whole closed, Stmt.Written whole closed (lines ++ ("else".toList ++ other) :: others) := by
  induction h with
  | simple hdeed hspace => exact absurd hopen.symm Bool.false_ne_true
  | block hpieces ih => exact absurd hopen.symm Bool.false_ne_true
  | @whileLoop src condition pieces closed space inside tail more hspace hinside hpieces hbody ih =>
      subst hopen
      obtain ⟨whole, hwhole, hcontinued⟩ := hbody.continued ih
      exact ⟨.whileLoop src condition [whole.stmt], _, Written.whileLoop hspace hinside
        (List.forall_mem_singleton.mpr hwhole) hcontinued⟩
  | @forLoop src start condition next pieces closed space inside tail more hspace hinside hpieces
      hbody ih =>
      subst hopen
      obtain ⟨whole, hwhole, hcontinued⟩ := hbody.continued ih
      exact ⟨.forLoop src start condition next [whole.stmt], _, Written.forLoop hspace hinside
        (List.forall_mem_singleton.mpr hwhole) hcontinued⟩
  | @branch src condition pieces closed space inside tail more hspace hinside hpieces hbody ih =>
      cases closed with
      | true =>
          exact ⟨.branch src condition (pieces.map Piece.stmt) (some _), _,
            Written.branchElse hspace hinside hpieces hno hbody hother hapart⟩
      | false =>
          obtain ⟨whole, hwhole, hcontinued⟩ := hbody.continued ih
          exact ⟨.branch src condition [whole.stmt] none, _, Written.branch hspace hinside
            (List.forall_mem_singleton.mpr hwhole) hcontinued⟩
  | @branchElse src condition yes no closed space inside tail second more seconds hspace hinside
      hyes hsecond hbody hbodySecond hapartSecond ihyes ihsecond =>
      subst hopen
      obtain ⟨whole, hwhole, hcontinued⟩ := hbodySecond.continued ihsecond
      rw [List.cons_append, List.append_assoc, List.cons_append]
      exact ⟨.branch src condition (yes.map Piece.stmt) (some [whole.stmt]), _,
        Written.branchElse hspace hinside hyes (List.forall_mem_singleton.mpr hwhole) hbody
          hcontinued hapartSecond⟩

end Dangling

/-- Without braces around its first body, the branch itself has no other one. -/
theorem Dangling.read {condition : Expr} {yes : Stmt} {no : List Stmt} {lines : List (List Char)}
    {text : List Char} (h : Dangling condition yes no lines) (htext : LaidOut lines text) :
    ∃ whole, statementsOf text = [(Stmt.branch "" condition [whole] none).unplaced] := by
  cases h with
  | @intro yes no closed space inside tail other more others hspace hinside hyes hno hbody hother
      hapart =>
      obtain ⟨whole, hwhole, hcontinued⟩ := hbody.continued (List.forall_mem_singleton.mpr
        fun hopen => hyes.continued hopen hno hother hapart)
      have hwritten : (Stmt.branch "" condition [whole.stmt] none).Written false _ :=
        Stmt.Written.branch hspace hinside (List.forall_mem_singleton.mpr hwhole) hcontinued
      have hprinted : Printed Stmt.Written [.branch "" condition [whole.stmt] none] text := by
        refine ⟨[⟨_, false, _⟩], rfl, List.forall_mem_singleton.mpr hwritten, ?_⟩
        rwa [List.flatMap_cons, List.flatMap_nil, List.append_nil]
      exact ⟨whole.stmt, hprinted.read⟩

/-! ### Texts without braces -/

/-- A statement that is made of the links of a chain, where each word for the other branch belongs
to the nearest branch in front of it that has none. -/
structure Nested (links : List Link) (stmt : Stmt) : Prop where
  bare : ∃ closed, stmt.Bare closed
  links_eq : stmt.links = links
  nearest : nearestOwners 0 [] links = some (stmt.owners 0)

/-- Chains one behind the other are read as one statement each. -/
theorem Chain.read {nests : List (List Link)} {groups : List (List (List Char))}
    {text : List Char} (hchains : List.Forall₂ Chain nests groups)
    (htext : LaidOut groups.flatten text)
    (howners : ∀ links ∈ nests, (nearestOwners 0 [] links).isSome) :
    ∃ stmts, List.Forall₂ Nested nests stmts ∧ statementsOf text = stmts.map Stmt.unplaced := by
  have hpieces : ∃ pieces : List Piece, pieces.map Piece.lines = groups ∧
      (∀ piece ∈ pieces, piece.stmt.Written piece.closed piece.lines) ∧
      List.Forall₂ Nested nests (pieces.map Piece.stmt) := by
    clear htext
    induction hchains with
    | nil => exact ⟨[], rfl, List.forall_mem_nil _, List.Forall₂.nil⟩
    | @cons links lines nests groups hchain rest ih =>
        obtain ⟨hfirst, hothers⟩ := List.forall_mem_cons.mp howners
        obtain ⟨piece, hlines, hwritten, hbare, hlinks, hnearest⟩ := hchain.whole hfirst
        obtain ⟨pieces, hgroups, hpieces, hnested⟩ := ih hothers
        refine ⟨piece :: pieces, ?_, List.forall_mem_cons.mpr ⟨hwritten, hpieces⟩,
          List.Forall₂.cons ⟨⟨_, hbare⟩, hlinks, hnearest⟩ hnested⟩
        rw [List.map_cons, hlines, hgroups]
  obtain ⟨pieces, rfl, hwritten, hnested⟩ := hpieces
  have hprinted : Printed Stmt.Written (pieces.map Piece.stmt) text :=
    ⟨pieces, rfl, hwritten, htext⟩
  exact ⟨_, hnested, hprinted.read⟩

/-! ### Braces are optional -/

/-- Braces around a body that is one statement are optional: however they are dropped, a text is
read as the text with all braces. They may not be dropped in front of the word for the other branch
where the statement ends with a branch that has none, for without any braces the word belongs to
the nearest branch in front of it that has none. -/
theorem braces_optional :
    (∀ stmts : List Stmt,
      ((∀ stmt ∈ stmts, stmt.Printable) → ∃ braced, Printed Stmt.FullyBraced stmts braced) ∧
      ∀ text braced, Printed Stmt.Written stmts text → Printed Stmt.FullyBraced stmts braced →
        statementsOf text = statementsOf braced ∧
          statementsOf braced = stmts.map Stmt.unplaced) ∧
    (∀ condition yes no lines text, Dangling condition yes no lines → LaidOut lines text →
      statementsOf text ≠ [(Stmt.branch "" condition [yes] (some no)).unplaced]) ∧
    ∀ nests groups text, List.Forall₂ Chain nests groups → LaidOut groups.flatten text →
      (∀ links ∈ nests, (nearestOwners 0 [] links).isSome) →
      ∃ stmts, List.Forall₂ Nested nests stmts ∧ statementsOf text = stmts.map Stmt.unplaced := by
  refine ⟨fun stmts => ⟨Printed.exists_fullyBraced, ?_⟩, ?_, ?_⟩
  · intro text braced htext hbraced
    have hread := (hbraced.mono Stmt.FullyBraced.written).read
    exact ⟨htext.read.trans hread.symm, hread⟩
  · intro condition yes no lines text hdangling htext heq
    obtain ⟨whole, hread⟩ := hdangling.read htext
    rw [hread] at heq
    simp only [Stmt.unplaced, Stmt.unplacedOther, List.cons.injEq, Stmt.branch.injEq,
      reduceCtorEq, and_false, false_and] at heq
  · intro nests groups text hchains htext howners
    exact Chain.read hchains htext howners

section CallOrCount

def callStep : Simple := { src := "", deed := .evaluates (.call {} "g" []) }

def countStep : Simple := { src := "", deed := .assigns "n" .decrement }

/-- Call if a call is due, and count down otherwise. -/
def callOrCount : Stmt :=
  .branch "" (.name {} "n") [.simple callStep] (some [.simple countStep])

theorem callStep_written : callStep.deed.Written "g()".toList :=
  Deed.Written.evaluates countdown_idents.2.1 countdown_call.inline

theorem countStep_written : countStep.deed.Written "n--".toList :=
  Deed.Written.assigns countdown_idents.2.2 (List.forall_mem_nil _) Change.Written.decrement

theorem counter_enclosed : (Expr.name {} "n").Enclosed "n".toList :=
  Expr.Enclosed.intro (List.forall_mem_nil _) countdown_counter.inline (List.forall_mem_nil _)

theorem callOrCount_printable : callOrCount.Printable := by
  obtain ⟨-, hg, hn⟩ := countdown_idents
  have hcall : (Stmt.simple callStep).Printable :=
    Stmt.Printable.simple (Deed.Printable.evaluates hg countdown_call)
  have hcount : (Stmt.simple countStep).Printable :=
    Stmt.Printable.simple (Deed.Printable.assigns hn fun e he => nomatch he)
  apply Stmt.Printable.branch countdown_counter (List.forall_mem_singleton.mpr hcall)
  intro body hbody
  cases hbody
  exact List.forall_mem_singleton.mpr hcount

def callPiece : Piece := ⟨.simple callStep, true, ["g();".toList]⟩

def countPiece : Piece := ⟨.simple countStep, true, ["n--;".toList]⟩

theorem callPiece_written : callPiece.stmt.Written callPiece.closed callPiece.lines :=
  Stmt.Written.simple callStep_written (List.forall_mem_nil _)

theorem countPiece_written : countPiece.stmt.Written countPiece.closed countPiece.lines :=
  Stmt.Written.simple countStep_written (List.forall_mem_nil _)

theorem callPiece_beside : Body [callPiece] true ([' '] ++ "g();".toList) [] :=
  Body.beside space_isSpace rfl (by decide)

theorem countPiece_beside : Body [countPiece] true ([' '] ++ "n--;".toList) [] :=
  Body.beside space_isSpace rfl (by decide)

theorem callOrCount_written :
    callOrCount.Written true ["if(n) g();".toList, "else n--;".toList] :=
  Stmt.Written.branchElse (List.forall_mem_nil _) counter_enclosed
    (List.forall_mem_singleton.mpr callPiece_written)
    (List.forall_mem_singleton.mpr countPiece_written) callPiece_beside countPiece_beside
    (StopsRun.cons (by decide) _)

/-- The lines write a branch inside a branch, where the inner one has another one. -/
theorem nested_written : (Stmt.branch "" (.name {} "n") [callOrCount] none).Written false
    ["if(n) if(n) g();".toList, "else n--;".toList] := by
  let inner : Piece := ⟨callOrCount, true, ["if(n) g();".toList, "else n--;".toList]⟩
  have hinner : inner.stmt.Written inner.closed inner.lines := callOrCount_written
  have hbody : Body [inner] inner.closed ([' '] ++ "if(n) g();".toList) ["else n--;".toList] :=
    Body.beside space_isSpace rfl (by decide)
  exact Stmt.Written.branch (List.forall_mem_nil _) counter_enclosed
    (List.forall_mem_singleton.mpr hinner) hbody

/-- The same lines are no way to write that the outer one has another one. -/
theorem nested_dangling :
    Dangling (.name {} "n") (.branch "" (.name {} "n") [.simple callStep] none)
      [.simple countStep] ["if(n) if(n) g();".toList, "else n--;".toList] := by
  let inner : Piece :=
    ⟨.branch "" (.name {} "n") [.simple callStep] none, false, ["if(n) g();".toList]⟩
  have hinner : inner.stmt.Written inner.closed inner.lines :=
    Stmt.Written.branch (List.forall_mem_nil _) counter_enclosed
      (List.forall_mem_singleton.mpr callPiece_written) callPiece_beside
  have hyes : Body [inner] inner.closed ([' '] ++ "if(n) g();".toList) [] :=
    Body.beside space_isSpace rfl (by decide)
  exact Dangling.intro (List.forall_mem_nil _) counter_enclosed hinner
    (List.forall_mem_singleton.mpr countPiece_written) hyes countPiece_beside
    (StopsRun.cons (by decide) _)

/-- The same lines as a chain of five links. -/
theorem nested_chain :
    Chain [.branch (.name {} "n"), .branch (.name {} "n"), .simple callStep, .other,
      .simple countStep] ["if(n) if(n) g();".toList, "else n--;".toList] := by
  have hheader : (Link.branch (.name {} "n")).Header "if(n)".toList :=
    Link.Header.branch (List.forall_mem_nil _) counter_enclosed
  have hcount : Chain [.simple countStep] ["n--;".toList] :=
    Chain.last countStep_written (List.forall_mem_nil _)
  have hother : Joined ["n--;".toList] ([' '] ++ "n--;".toList) [] :=
    Joined.beside space_isSpace rfl
  have hcall : Chain [.simple callStep, .other, .simple countStep]
      ["g();".toList, "else n--;".toList] :=
    Chain.other callStep_written (List.forall_mem_nil _) hcount hother
      (StopsRun.cons (by decide) _)
  have hinner : Chain [.branch (.name {} "n"), .simple callStep, .other, .simple countStep]
      ["if(n) g();".toList, "else n--;".toList] :=
    Chain.header hheader hcall (Joined.beside space_isSpace rfl)
  exact Chain.header hheader hinner (Joined.beside space_isSpace rfl)

theorem nested_laidOut : LaidOut ["if(n) if(n) g();".toList, "else n--;".toList]
    "if(n) if(n) g(); else n--;".toList := by
  have hlast : LaidOut ["else n--;".toList] ([' '] ++ ("else n--;".toList ++ [])) :=
    LaidOut.ended (by decide) ⟨';', rfl, by decide⟩ (LaidOut.nil (List.forall_mem_nil _))
  exact LaidOut.ended (List.forall_mem_nil _) ⟨';', rfl, by decide⟩ hlast

/-- The word for the other branch belongs to the second branch, at place 1. -/
theorem braces_optional_nested :
    (∃ braced, Printed Stmt.FullyBraced [.branch "" (.name {} "n") [callOrCount] none] braced ∧
      statementsOf "if(n) if(n) g(); else n--;".toList = statementsOf braced) ∧
    statementsOf "if(n) if(n) g(); else n--;".toList ≠
      [(Stmt.branch "" (.name {} "n") [.branch "" (.name {} "n") [.simple callStep] none]
        (some [.simple countStep])).unplaced] ∧
    ∃ stmt : Stmt, statementsOf "if(n) if(n) g(); else n--;".toList = [stmt.unplaced] ∧
      stmt.owners 0 = [1] := by
  obtain ⟨hoptional, hdangling, hchains⟩ := braces_optional
  refine ⟨?_, hdangling _ _ _ _ _ nested_dangling nested_laidOut, ?_⟩
  · have hprintable : (Stmt.branch "" (.name {} "n") [callOrCount] none).Printable :=
      Stmt.Printable.branch countdown_counter (List.forall_mem_singleton.mpr callOrCount_printable)
        fun body hbody => nomatch hbody
    obtain ⟨hexists, hreads⟩ := hoptional [.branch "" (.name {} "n") [callOrCount] none]
    obtain ⟨braced, hbraced⟩ := hexists (List.forall_mem_singleton.mpr hprintable)
    have htext : Printed Stmt.Written [.branch "" (.name {} "n") [callOrCount] none]
        "if(n) if(n) g(); else n--;".toList :=
      ⟨[⟨_, false, _⟩], rfl, List.forall_mem_singleton.mpr nested_written, nested_laidOut⟩
    exact ⟨braced, hbraced, (hreads _ braced htext hbraced).1⟩
  · obtain ⟨stmts, hnested, hread⟩ := hchains [_] [_] _
      (List.Forall₂.cons nested_chain List.Forall₂.nil) nested_laidOut
      (List.forall_mem_singleton.mpr rfl)
    cases hnested with
    | @cons _ stmt _ stmts hstmt hnone =>
        cases hnone
        refine ⟨stmt, hread, ?_⟩
        exact Option.some.inj (hstmt.nearest.symm.trans rfl)

end CallOrCount

end ToyC
