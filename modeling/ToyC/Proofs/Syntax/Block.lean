import ToyC.Proofs.Syntax.Layout

/-!
Reading statements. A statement is read back from the lines that write it, and what
stands behind them is left, whatever it is; only the word for the other branch must
not follow a statement that would take it. The lines of a block are then read one
statement after the other.
-/

namespace ToyC

open Source (Walk isSpace isBlank_of_isSpace)
open Text (isWord skipBlanks trim Trimmed StopsRun)
open Shape (IsEnd)

/-! ### Statements without their places -/

mutual

/-- A statement with its places and its lines forgotten. -/
def Stmt.unplaced : Stmt → Stmt
  | .simple s => .simple s.unplaced
  | .branch _ condition yes no =>
    .branch "" condition.unplaced (unplacedAll yes) (unplacedOther no)
  | .whileLoop _ condition body => .whileLoop "" condition.unplaced (unplacedAll body)
  | .forLoop _ start condition next body =>
    .forLoop "" (start.map Simple.unplaced) (condition.map Expr.unplaced)
      (next.map Simple.unplaced) (unplacedAll body)
  | .block _ body => .block "" (unplacedAll body)

def Stmt.unplacedAll : List Stmt → List Stmt
  | [] => []
  | stmt :: rest => stmt.unplaced :: unplacedAll rest

def Stmt.unplacedOther : Option (List Stmt) → Option (List Stmt)
  | none => none
  | some body => some (unplacedAll body)

end

theorem Stmt.unplacedAll_eq_map (stmts : List Stmt) :
    unplacedAll stmts = stmts.map Stmt.unplaced := by
  induction stmts with
  | nil => rfl
  | cons stmt rest ih => rw [unplacedAll, ih, List.map_cons]

/-! ### Clauses of loop headers -/

theorem Clause.read {α β : Type} {written : α → List Char → Prop} {read : List Char → Option α}
    {view : α → β} (hread : ∀ {a text}, written a text →
      text ≠ [] ∧ ∃ found, read text = some found ∧ view found = view a)
    {clause : Option α} {text : List Char} (h : Clause written clause text) :
    (optional read text).map view = clause.map view := by
  cases h with
  | absent => rfl
  | @present a text ha =>
      obtain ⟨hne, found, hfound, hview⟩ := hread ha
      have hempty : text.isEmpty = false := by simpa using hne
      rw [optional, hempty, if_neg Bool.false_ne_true, hfound, Option.map_some, Option.map_some,
        hview]

theorem Simple.clause_read {s : Simple} {text : List Char} (h : s.deed.Written text) :
    text ≠ [] ∧ ∃ found, Simple.read? text = some found ∧ found.unplaced = s.unplaced := by
  obtain ⟨found, hread, hdeed⟩ := h.read (Or.inl rfl)
  rw [List.append_nil] at hread
  refine ⟨h.trimmed.ne_nil, found, hread, ?_⟩
  rw [Simple.unplaced, Simple.unplaced, hdeed]

/-- The clauses of a loop header are those that were written. -/
theorem Clauses.Written.read {start : Option Simple} {condition : Option Expr}
    {next : Option Simple} {inside : List Char} (h : Written start condition next inside) :
    ∃ clauses, Clauses.read? inside = some clauses ∧
      (optional Simple.read? clauses.start).map Simple.unplaced = start.map Simple.unplaced ∧
      (optional (some ∘ Expr.read) clauses.condition).map Expr.unplaced =
        condition.map Expr.unplaced ∧
      (optional Simple.read? clauses.next).map Simple.unplaced = next.map Simple.unplaced := by
  obtain ⟨first, second, third, hseparated, hparts, hstart, hcondition, hnext⟩ := h.parts
  have hsplit := Source.splitParts_separated hseparated rfl hparts
  have hexpr : ∀ {e : Expr} {text : List Char}, e.Inline text → text ≠ [] ∧
      ∃ found, (some ∘ Expr.read) text = some found ∧ found.unplaced = e.unplaced := fun he =>
    ⟨he.trimmed.ne_nil, _, rfl, he.read_self⟩
  refine ⟨⟨first, second, third⟩, ?_, hstart.read Simple.clause_read, hcondition.read hexpr,
    hnext.read Simple.clause_read⟩
  rw [Clauses.read?, hsplit]

/-! ### Headers and bodies -/

/-- A header is found on its line, with what stands behind it. -/
theorem headerText_found {sep : Char → Bool} (keyword : Keyword) {space inside : List Char}
    (hspace : ∀ c ∈ space, isSpace c = true) (h : Walk sep 0 inside 0) (tail : List Char) :
    ∃ span, header? (headerText keyword space inside ++ tail) = some (keyword, span) ∧
      Source.parenSpan? span = some (inside, trim tail) := by
  have hline : headerText keyword space inside ++ tail =
      keyword.word.toList ++ (space ++ '(' :: (inside ++ ')' :: tail)) := by
    simp [headerText]
  rw [hline]
  exact ⟨_, header?_append keyword hspace _, parenSpan?_append h tail⟩

theorem headerText_ne_brace (keyword : Keyword) (space inside tail : List Char) :
    headerText keyword space inside ++ tail ≠ ['{'] := by
  cases keyword <;> exact fun heq => nomatch heq

/-- No line that continues a branch follows. -/
def EndsBranch (rest : List (List Char)) : Prop :=
  ∀ next ∈ rest.head?, otherwise? next = none

/-- A statement is read back from its lines, and the lines behind them are left. -/
def Stmt.ReadBack (stmt : Stmt) (closed : Bool) (lines : List (List Char)) : Prop :=
  ∀ first more, lines = first :: more → ∀ rest, (closed = false → EndsBranch rest) →
    (∃ found, (Outline.statement first (more ++ rest)).1.stmt? = some found ∧
      found.unplaced = stmt.unplaced) ∧
    (Outline.statement first (more ++ rest)).2.1 = rest

theorem IsLayout.endsBranch {lines : List (List Char)} (h : IsLayout lines)
    (rest : List (List Char)) : EndsBranch (lines ++ rest) := by
  obtain ⟨first, more, rfl, -, hnone⟩ := h.starts
  intro next hnext
  cases hnext
  exact hnone

/-- Statements are read one after the other. -/
theorem stmts_pieces {pieces : List Piece} (hlayout : ∀ piece ∈ pieces, IsLayout piece.lines)
    (hreads : ∀ piece ∈ pieces, piece.stmt.ReadBack piece.closed piece.lines) :
    (Outline.stmts (Outline.lines (pieces.flatMap Piece.lines))).map Stmt.unplaced =
      (pieces.map Piece.stmt).map Stmt.unplaced := by
  induction pieces with
  | nil =>
      rw [List.flatMap_nil, Outline.lines]
      rfl
  | cons piece pieces ih =>
      obtain ⟨hfirst, hothers⟩ := List.forall_mem_cons.mp hlayout
      have hrest := ih hothers fun other hother => hreads other (List.mem_cons_of_mem _ hother)
      have hends : EndsBranch (pieces.flatMap Piece.lines) := by
        cases pieces with
        | nil => intro next hnext; cases hnext
        | cons second pieces =>
            rw [List.flatMap_cons]
            exact (hothers second List.mem_cons_self).endsBranch _
      obtain ⟨first, more, hlines, -⟩ := hfirst.starts
      obtain ⟨⟨found, hfound, hsame⟩, hbehind⟩ :=
        hreads piece List.mem_cons_self first more hlines _ fun _ => hends
      rw [List.flatMap_cons, hlines, List.cons_append, Outline.lines_cons, Outline.stmts, hfound,
        hbehind, Option.toList_some, List.singleton_append, List.map_cons, List.map_cons,
        List.map_cons, hsame, hrest]

section Bodies

variable {pieces : List Piece} {closed : Bool} {tail : List Char} {lines more : List (List Char)}

theorem trim_behind {space line : List Char} (hspace : ∀ c ∈ space, isSpace c = true)
    (h : Trimmed line) : trim (space ++ line) = line := by
  have htrim := Source.trim_spaces h hspace (List.forall_mem_nil _)
  rwa [List.append_nil] at htrim

/-- Lines in braces are read as the lines of a body. -/
theorem Braced.body (h : Braced lines tail more) (hlines : Level lines)
    (rest : List (List Char)) :
    (Outline.body (trim tail) (more ++ rest)).1 = Outline.lines lines ∧
      (Outline.body (trim tail) (more ++ rest)).2.1 = rest := by
  have hblock := hlines.collectBlock rest
  cases h with
  | beside hspace =>
      rw [trim_behind hspace (Trimmed.singleton (by decide))]
      have hbody := Outline.body_brace (lines ++ [['}']] ++ rest)
      rwa [hblock] at hbody
  | below =>
      have hbody := Outline.body_braceBelow (lines ++ [['}']] ++ rest)
      rwa [hblock] at hbody

/-- A body is read back, with braces or without. -/
theorem Body.read (h : Body pieces closed tail more)
    (hlayout : ∀ piece ∈ pieces, IsLayout piece.lines)
    (hreads : ∀ piece ∈ pieces, piece.stmt.ReadBack piece.closed piece.lines)
    {rest : List (List Char)} (hrest : closed = false → EndsBranch rest) :
    Stmt.unplacedAll (Outline.stmts (Outline.body (trim tail) (more ++ rest)).1) =
        Stmt.unplacedAll (pieces.map Piece.stmt) ∧
      (Outline.body (trim tail) (more ++ rest)).2.1 = rest := by
  rw [Stmt.unplacedAll_eq_map, Stmt.unplacedAll_eq_map]
  have hsingle : ∀ {outline : Outline} {found stmt : Stmt}, outline.stmt? = some found →
      found.unplaced = stmt.unplaced →
      (Outline.stmts [outline]).map Stmt.unplaced = [stmt].map Stmt.unplaced := by
    intro outline found stmt hfound hsame
    rw [Outline.stmts, Outline.stmts, hfound, List.append_nil, Option.toList_some, List.map_cons,
      List.map_cons, hsame]
  cases h with
  | braced h =>
      obtain ⟨hbody, hbehind⟩ := h.body (level_pieces hlayout) rest
      rw [hbody]
      exact ⟨stmts_pieces hlayout hreads, hbehind⟩
  | @beside piece space first more hspace hlines hfirst =>
      have htrim : Trimmed first := by
        apply ((hlayout piece List.mem_cons_self).isLine first _).trimmed
        rw [hlines]
        exact List.mem_cons_self
      obtain ⟨⟨found, hfound, hsame⟩, hbehind⟩ :=
        hreads piece List.mem_cons_self first more hlines rest hrest
      obtain ⟨hbody, hleft⟩ := Outline.body_beside hfirst htrim.ne_nil (more ++ rest)
      rw [trim_behind hspace htrim, hbody, hleft]
      exact ⟨hsingle hfound hsame, hbehind⟩
  | @below piece first more hlines hfirst =>
      obtain ⟨⟨found, hfound, hsame⟩, hbehind⟩ :=
        hreads piece List.mem_cons_self first more hlines rest hrest
      obtain ⟨hbody, hleft⟩ := Outline.body_below hfirst (more ++ rest)
      have hnil : trim [] = [] := rfl
      rw [hnil, List.cons_append, hbody, hleft]
      exact ⟨hsingle hfound hsame, hbehind⟩

/-- Behind the word for the other branch, its body is found. -/
theorem Body.otherwise? (h : Body pieces closed tail more)
    (hlayout : ∀ piece ∈ pieces, IsLayout piece.lines) (hapart : StopsRun isWord tail) :
    ToyC.otherwise? ("else".toList ++ tail) = some (trim tail) := by
  have hword : Walk (· == ';') 0 "else".toList 0 :=
    Token.walk_word Source.isSeparator_of_semicolon (by decide) 0
  have hline := h.isLine hword (Token.trimmed_word (by decide) (by decide)) hlayout _
    List.mem_cons_self
  have hskip : ∀ {space line : List Char}, (∀ c ∈ space, isSpace c = true) → Trimmed line →
      skipBlanks (space ++ line) = trim (space ++ line) := by
    intro space line hspace htrim
    rw [trim_behind hspace htrim,
      Source.skipBlanks_spaces hspace]
    have hstop := htrim.stops []
    rw [List.append_nil] at hstop
    exact Text.skipBlanks_of_stops hstop
  have htail : skipBlanks tail = trim tail := by
    cases h with
    | braced h =>
        cases h with
        | beside hspace => exact hskip hspace (Trimmed.singleton (by decide))
        | below => rfl
    | @beside piece space first more hspace hlines hfirst =>
        apply hskip hspace
        apply ((hlayout piece List.mem_cons_self).isLine first _).trimmed
        rw [hlines]
        exact List.mem_cons_self
    | below hlines hfirst => rfl
  rw [otherwise?_append hapart fun hmem => hline.not_mem_newline (List.mem_append_right _ hmem),
    htail]

end Bodies

/-- A simple statement is read back from its one line. -/
theorem Simple.readBack {s : Simple} {text space : List Char} (hdeed : s.deed.Written text)
    (hspace : ∀ c ∈ space, isSpace c = true) (closed : Bool) :
    (Stmt.simple s).ReadBack closed [text ++ (space ++ [';'])] := by
  intro first more hlines rest hrest
  cases hlines
  have hend : StopsRun isWord (space ++ [';']) :=
    stops_word_of_space hspace fun _ => StopsRun.cons (by decide) _
  have hbrace : text ++ (space ++ [';']) ≠ ['{'] := simpleLine_ne _ _ (by decide)
  obtain ⟨word, hleads, hbranch, hwhile, hfor, -⟩ := hdeed.leads hend
  obtain ⟨hsingle, hbehind⟩ := Outline.statement_single hbrace
    (hleads.header? hbranch hwhile hfor) rest
  obtain ⟨found, hread, hsame⟩ := hdeed.read (Or.inr ⟨space, hspace, rfl⟩)
  refine ⟨⟨.simple found, ?_, ?_⟩, hbehind⟩
  · rw [List.nil_append, hsingle, Outline.stmt?, hread]
    rfl
  · rw [Stmt.unplaced, Stmt.unplaced, Simple.unplaced, Simple.unplaced, hsame]

/-- A block is read back from its lines in braces. -/
theorem Stmt.block_readBack {src : String} {pieces : List Piece}
    (hlayout : ∀ piece ∈ pieces, IsLayout piece.lines)
    (hreads : ∀ piece ∈ pieces, piece.stmt.ReadBack piece.closed piece.lines) (closed : Bool) :
    (Stmt.block src (pieces.map Piece.stmt)).ReadBack closed
      (['{'] :: (pieces.flatMap Piece.lines ++ [['}']])) := by
  intro first more hlines rest hrest
  cases hlines
  have hblock := (level_pieces hlayout).collectBlock rest
  obtain ⟨hinside, hbehind⟩ :=
    Outline.statement_block (pieces.flatMap Piece.lines ++ [['}']] ++ rest)
  rw [hblock] at hinside hbehind
  rw [hinside]
  refine ⟨⟨.block _ _, rfl, ?_⟩, hbehind⟩
  rw [unplaced, unplaced, unplacedAll_eq_map, unplacedAll_eq_map, stmts_pieces hlayout hreads]

/-- Every statement is read back from the lines that write it. -/
theorem Stmt.Written.readBack {stmt : Stmt} {closed : Bool} {lines : List (List Char)}
    (h : stmt.Written closed lines) : stmt.ReadBack closed lines := by
  induction h with
  | @simple s text space hdeed hspace =>
      exact Simple.readBack hdeed hspace _
  | @block src pieces hpieces ih =>
      exact block_readBack (fun piece hpiece => (hpieces piece hpiece).isLayout) ih _
  | @whileLoop src condition pieces closed space inside tail more hspace hinside hpieces hbody ih =>
      intro first below hlines rest hrest
      cases hlines
      obtain ⟨span, hheader, hspan⟩ := headerText_found .whileLoop hspace hinside.walk tail
      have hbrace := headerText_ne_brace .whileLoop space inside tail
      obtain ⟨hread, hbehind⟩ :=
        hbody.read (fun piece hpiece => (hpieces piece hpiece).isLayout) ih hrest
      obtain ⟨hstatement, hleft⟩ :=
        Outline.statement_whileLoop hbrace hheader hspan (more ++ rest)
      rw [hstatement, hleft]
      refine ⟨⟨.whileLoop _ _ _, rfl, ?_⟩, hbehind⟩
      rw [Stmt.unplaced, Stmt.unplaced, hinside.read, hread]
  | @forLoop src start condition next pieces closed space inside tail more hspace hinside hpieces
      hbody ih =>
      intro first below hlines rest hrest
      cases hlines
      obtain ⟨span, hheader, hspan⟩ := headerText_found .forLoop hspace hinside.walk tail
      have hbrace := headerText_ne_brace .forLoop space inside tail
      obtain ⟨hread, hbehind⟩ :=
        hbody.read (fun piece hpiece => (hpieces piece hpiece).isLayout) ih hrest
      obtain ⟨clauses, hclauses, hstart, hcondition, hnext⟩ := hinside.read
      obtain ⟨hstatement, hleft⟩ :=
        Outline.statement_forLoop hbrace hheader hspan (more ++ rest)
      rw [hstatement, hleft, Outline.stmt?, hclauses]
      refine ⟨⟨.forLoop _ _ _ _ _, rfl, ?_⟩, hbehind⟩
      rw [Stmt.unplaced, Stmt.unplaced, hstart, hcondition, hnext, hread]
  | @branch src condition pieces closed space inside tail more hspace hinside hpieces hbody ih =>
      intro first below hlines rest hrest
      cases hlines
      obtain ⟨span, hheader, hspan⟩ := headerText_found .branch hspace hinside.walk tail
      have hbrace := headerText_ne_brace .branch space inside tail
      obtain ⟨hread, hbehind⟩ :=
        hbody.read (fun piece hpiece => (hpieces piece hpiece).isLayout) ih fun _ => hrest rfl
      have hends : EndsBranch (Outline.body (trim tail) (more ++ rest)).2.1 := by
        rw [hbehind]
        exact hrest rfl
      obtain ⟨hstatement, hleft⟩ := Outline.statement_branch hbrace hheader hspan hends
      rw [hstatement, hleft]
      refine ⟨⟨.branch _ _ _ none, rfl, ?_⟩, hbehind⟩
      rw [Stmt.unplaced, Stmt.unplaced, hinside.read, hread]
  | @branchElse src condition yes no closed space inside tail other more others hspace hinside hyes
      hno hbody hother hapart ihyes ihno =>
      intro first below hlines rest hrest
      cases hlines
      obtain ⟨span, hheader, hspan⟩ := headerText_found .branch hspace hinside.walk tail
      have hbrace := headerText_ne_brace .branch space inside tail
      have hlayout : ∀ piece ∈ no, IsLayout piece.lines := fun piece hpiece =>
        (hno piece hpiece).isLayout
      have hclosed : true = false → EndsBranch (("else".toList ++ other) :: (others ++ rest)) :=
        fun hopen => nomatch hopen
      obtain ⟨hread, hbehind⟩ :=
        hbody.read (fun piece hpiece => (hyes piece hpiece).isLayout) ihyes hclosed
      obtain ⟨hreadOther, hbehindOther⟩ := hother.read hlayout ihno hrest
      have hword := hother.otherwise? hlayout hapart
      obtain ⟨hstatement, hleft⟩ :=
        Outline.statement_branchElse hbrace hheader hspan hbehind hword
      rw [List.append_assoc, List.cons_append, hstatement, hleft]
      refine ⟨⟨.branch _ _ _ (some _), rfl, ?_⟩, hbehindOther⟩
      rw [Stmt.unplaced, Stmt.unplaced, unplacedOther, unplacedOther, hinside.read, hread,
        hreadOther]

/-- The statements of a block are read back from the lines that write them, one after the other. -/
theorem readBlock_written {pieces : List Piece}
    (h : ∀ piece ∈ pieces, piece.stmt.Written piece.closed piece.lines) :
    (readBlock (pieces.flatMap Piece.lines)).map Stmt.unplaced =
      (pieces.map Piece.stmt).map Stmt.unplaced :=
  stmts_pieces (fun piece hpiece => (h piece hpiece).isLayout)
    fun piece hpiece => (h piece hpiece).readBack

end ToyC
