import ToyC.Proofs.Syntax.Visit
import ToyC.Syntax.Block

/-!
Reading by index. The statements of a block can be read with an index into its lines:
a statement starts at the index, or with a line that a header in front of it pushes
back, and is left with the index of the next unread line. Given enough steps, the
reader by index reads what `readBlock` reads, and its visits pass over the lines in
order: no call goes back behind the index that it was given.
-/

namespace ToyC

namespace ByIndex

/-- The line that a statement starts with, and the index behind it. -/
def first? (lines : List (List Char)) (start : Nat) : Option Pushed → Option (List Char × Nat)
  | none => lines[start]?.map (·, start + 1)
  | some pushed => some (pushed.line, start)

/-- The lines of a block from an index on, and the index behind the line that closes it. -/
def collect (lines : List (List Char)) (depth : Int) (index : Nat) :
    List (List Char) × Nat :=
  match _h : lines[index]? with
  | none => ([], index)
  | some line =>
    if depth + balance line ≤ 0 then ([], index + 1)
    else
      let (body, next) := collect lines (depth + balance line) (index + 1)
      (line :: body, next)
termination_by lines.length - index
decreasing_by
  have := (List.getElem?_eq_some_iff.1 _h).1
  omega

mutual

/-- The statements of lines from an index on. Every call takes one step of those that are left,
and there is no result when none is. -/
def block : Nat → List (List Char) → Nat → Option (List Stmt × List Visit)
  | 0, _, _ => none
  | steps + 1, lines, index =>
    if index < lines.length then do
      let (stmt, next, visit) ← statement steps lines index none
      let (stmts, visits) ← block steps lines next
      some (stmt.toList ++ stmts, visit :: visits)
    else some ([], [])

/-- One statement, and the index of the next unread line. -/
def statement :
    Nat → List (List Char) → Nat → Option Pushed → Option (Option Stmt × Nat × Visit)
  | 0, _, _, _ => none
  | steps + 1, lines, start, pushed => do
    let (line, index) ← first? lines start pushed
    let (stmt, next, inside) ←
      if line = ['{'] then do
        let (body, next) := collect lines 1 index
        let (stmts, visits) ← block steps body 0
        some (some (.block "\x7b" stmts), next, [.block body visits])
      else
        match header? line with
        | none => some ((Simple.read? line).map .simple, index, [])
        | some (keyword, span) => control steps keyword span line lines index
    some (stmt, next, .statement start pushed next inside)

/-- A statement with a header, whose parenthesis starts a text. -/
def control : Nat → Keyword → List Char → List Char → List (List Char) → Nat →
    Option (Option Stmt × Nat × List Visit)
  | 0, _, _, _, _, _ => none
  | steps + 1, keyword, span, line, lines, index =>
    match Source.parenSpan? span with
    | none => some (none, index, [])
    | some (header, tail) => do
      let (inside, next, visits) ← body steps ⟨tail, line⟩ lines index
      match keyword with
      | .branch =>
        let other := lines[next]?.bind fun below => (otherwise? below).map (⟨·, below⟩)
        match other with
        | none =>
          some (some (.branch (String.ofList line) (Expr.read header) inside none), next, visits)
        | some other => do
          let (no, last, more) ← body steps other lines (next + 1)
          some (some (.branch (String.ofList line) (Expr.read header) inside (some no)), last,
            visits ++ more)
      | .whileLoop =>
        some (some (.whileLoop (String.ofList line) (Expr.read header) inside), next, visits)
      | .forLoop =>
        let loop (clauses : Clauses) : Stmt :=
          .forLoop (String.ofList line) (optional Simple.read? clauses.start)
            (optional (some ∘ Expr.read) clauses.condition) (optional Simple.read? clauses.next)
            inside
        some ((Clauses.read? header).map loop, next, visits)

/-- The body that starts with what a header leaves of its line. -/
def body : Nat → Pushed → List (List Char) → Nat → Option (List Stmt × Nat × List Visit)
  | 0, _, _, _ => none
  | steps + 1, rest, lines, index =>
    if rest.line = ['{'] then do
      let (body, next) := collect lines 1 index
      let (stmts, visits) ← block steps body 0
      some (stmts, next, [.block body visits])
    else if rest.line = [] then
      match lines[index]? with
      | none => some ([], index, [])
      | some below =>
        if below = ['{'] then body steps ⟨below, below⟩ lines (index + 1)
        else do
          let (stmt, next, visit) ← statement steps lines index none
          some (stmt.toList, next, [visit])
    else do
      let (stmt, next, visit) ← statement steps lines index (some rest)
      some (stmt.toList, next, [visit])

end

end ByIndex

/-! ### Lines of a block -/

theorem drop_of_getElem? {α : Type} {items : List α} {index : Nat} {item : α}
    (h : items[index]? = some item) : items.drop index = item :: items.drop (index + 1) := by
  obtain ⟨hlt, rfl⟩ := List.getElem?_eq_some_iff.1 h
  exact List.drop_eq_getElem_cons hlt

namespace ByIndex

/-- Collecting by index takes the lines that are collected from the ones at the index on. -/
theorem collect_eq (lines : List (List Char)) (depth : Int) (index : Nat) :
    (collect lines depth index).1 = (collectFrom depth (lines.drop index)).1 ∧
      lines.drop (collect lines depth index).2 = (collectFrom depth (lines.drop index)).2 := by
  fun_induction collect lines depth index with
  | case1 depth index h =>
      rw [List.drop_eq_nil_of_le (List.getElem?_eq_none_iff.1 h)]
      exact ⟨rfl, rfl⟩
  | case2 depth index line h hclose =>
      rw [drop_of_getElem? h, collectFrom, if_pos hclose]
      exact ⟨rfl, rfl⟩
  | case3 depth index line h hopen body next hrest ih =>
      rw [hrest] at ih
      rw [drop_of_getElem? h, collectFrom_cons (by omega), ← ih.1, ← ih.2]
      exact ⟨rfl, rfl⟩

/-- The lines that are collected stand together from the index on, in front of the index that is
left. -/
theorem collect_slice (lines : List (List Char)) (depth : Int) (index : Nat) :
    (collect lines depth index).1 <+: lines.drop index ∧
      index + (collect lines depth index).1.length ≤ (collect lines depth index).2 := by
  fun_induction collect lines depth index with
  | case1 depth index h => exact ⟨List.nil_prefix, Nat.le_refl _⟩
  | case2 depth index line h hclose => exact ⟨List.nil_prefix, Nat.le_succ _⟩
  | case3 depth index line h hopen body next hrest ih =>
      rw [hrest] at ih
      obtain ⟨hbody, hnext⟩ := ih
      dsimp only at hnext ⊢
      rw [drop_of_getElem? h, List.length_cons]
      exact ⟨List.cons_prefix_cons.2 ⟨rfl, hbody⟩, by omega⟩

theorem collect_le {lines : List (List Char)} {depth : Int} {index : Nat}
    (h : index ≤ lines.length) : (collect lines depth index).2 ≤ lines.length := by
  fun_induction collect lines depth index with
  | case1 depth index hline => exact h
  | case2 depth index line hline hclose => exact (List.getElem?_eq_some_iff.1 hline).1
  | case3 depth index line hline hopen body next hrest ih =>
      rw [hrest] at ih
      exact ih (List.getElem?_eq_some_iff.1 hline).1

theorem collect_size (lines : List (List Char)) (depth : Int) (index : Nat) :
    linesSize (collect lines depth index).1 ≤ linesSize (lines.drop index) :=
  linesSize_le_of_sublist (collect_slice lines depth index).1.sublist

/-- A block that is read from collected lines passes over them. -/
theorem collect_passes {lines : List (List Char)} {index : Nat} {visits : List Visit}
    (h : index ≤ lines.length)
    (hvisits : Passes (collect lines 1 index).1 0 visits (collect lines 1 index).1.length) :
    Passes lines index [.block (collect lines 1 index).1 visits] (collect lines 1 index).2 := by
  obtain ⟨hfront, hnext⟩ := collect_slice lines 1 index
  refine .block (Nat.le_refl _) (Nat.le_add_right _ _) ?_ hvisits (.nil hnext (collect_le h))
  rw [Nat.add_sub_cancel_left]
  exact List.prefix_iff_eq_take.1 hfront

/-! ### What the reader by index reads -/

/-- A run has a result as soon as it may take more than a number of steps. -/
def Settles {α : Type} (run : Nat → Option α) (bound : Nat) (result : α) : Prop :=
  ∀ steps, bound < steps → run steps = some result

theorem Settles.of_step {α : Type} {run : Nat → Option α} {bound : Nat} {result : α}
    (h : ∀ steps, bound ≤ steps → run (steps + 1) = some result) : Settles run bound result := by
  intro steps hsteps
  obtain ⟨steps, rfl⟩ := Nat.exists_eq_succ_of_ne_zero (Nat.ne_zero_of_lt hsteps)
  exact h steps (Nat.le_of_lt_succ hsteps)

/-- The lines from an index on are read as a block. -/
structure BlockReads (lines : List (List Char)) (index : Nat) (visits : List Visit) : Prop where
  settles : Settles (block · lines index) (4 * linesSize (lines.drop index))
    (Outline.stmts (Outline.lines (lines.drop index)), visits)
  passes : Passes lines index visits lines.length

/-- A line and those from an index on are read as a statement, up to the next unread line. -/
structure StatementReads (start : Nat) (pushed : Option Pushed) (line : List Char)
    (lines : List (List Char)) (index next : Nat) (visits : List Visit) : Prop where
  settles : Settles (statement · lines start pushed)
    (4 * (line.length + linesSize (lines.drop index)) + 1)
    ((Outline.statement line (lines.drop index)).1.stmt?, next,
      .statement start pushed next visits)
  behind : lines.drop next = (Outline.statement line (lines.drop index)).2.1
  passes : Passes lines index visits next

/-- The same for a line that starts with a header, whose parenthesis starts a text. -/
structure ControlReads (keyword : Keyword) (span line : List Char) (lines : List (List Char))
    (index next : Nat) (visits : List Visit) : Prop where
  settles : Settles (control · keyword span line lines index)
    (4 * (line.length + linesSize (lines.drop index)))
    ((Outline.statement line (lines.drop index)).1.stmt?, next, visits)
  behind : lines.drop next = (Outline.statement line (lines.drop index)).2.1
  passes : Passes lines index visits next

/-- What is left of a line and the lines from an index on are read as a body. -/
structure BodyReads (rest : Pushed) (lines : List (List Char)) (index next : Nat)
    (visits : List Visit) : Prop where
  settles : Settles (body · rest lines index)
    (4 * (rest.line.length + linesSize (lines.drop index)) + 2)
    (Outline.stmts (Outline.body rest.line (lines.drop index)).1, next, visits)
  behind : lines.drop next = (Outline.body rest.line (lines.drop index)).2.1
  passes : Passes lines index visits next

section

variable {lines : List (List Char)} {keyword : Keyword} {line span header tail below : List Char}
  {start index next last : Nat} {pushed : Option Pushed} {rest : Pushed}
  {inside visits more : List Visit}

theorem linesSize_drop_of_getElem? (h : lines[index]? = some line) :
    linesSize (lines.drop index) = line.length + 1 + linesSize (lines.drop (index + 1)) := by
  rw [drop_of_getElem? h, linesSize_cons]

/-! ### Blocks -/

theorem BlockReads.ending (h : index ≤ lines.length) (hend : lines.length ≤ index) :
    BlockReads lines index [] where
  settles := by
    refine .of_step fun steps _ => ?_
    rw [block, if_neg (Nat.not_lt.2 hend), List.drop_eq_nil_of_le hend, Outline.lines,
      Outline.stmts]
  passes := .nil h (Nat.le_refl _)

theorem BlockReads.cons (hline : lines[index]? = some line)
    (hfirst : StatementReads index none line lines (index + 1) next inside)
    (hrest : BlockReads lines next visits) :
    BlockReads lines index (.statement index none next inside :: visits) where
  settles := by
    have hlt : index < lines.length := (List.getElem?_eq_some_iff.1 hline).1
    have hsize := linesSize_drop_of_getElem? hline
    have hnext : linesSize (lines.drop next) ≤ linesSize (lines.drop (index + 1)) := by
      rw [hfirst.behind]
      exact Behind.size_le _
    refine .of_step fun steps hsteps => ?_
    have hstatement := hfirst.settles steps (by omega)
    have hblock := hrest.settles steps (by omega)
    rw [block, if_pos hlt, drop_of_getElem? hline, Outline.lines_cons, Outline.stmts,
      ← hfirst.behind]
    simp only [Option.bind_eq_bind, Option.bind_some, hstatement, hblock]
  passes := hfirst.passes.fresh hrest.passes

/-- The lines of a block, read as a block of their own. -/
theorem BlockReads.collected (h : BlockReads (collect lines 1 index).1 0 visits) :
    Settles (block · (collect lines 1 index).1 0) (4 * linesSize (lines.drop index))
      (Outline.stmts (Outline.lines (collectBlock (lines.drop index)).1), visits) := by
  have hsize := collect_size lines 1 index
  have hsettles := h.settles
  rw [List.drop_zero] at hsettles
  rw [collectBlock, ← (collect_eq lines 1 index).1]
  exact fun steps hsteps => hsettles steps (by omega)

/-! ### Statements -/

theorem first?_fresh (h : lines[start]? = some line) :
    first? lines start none = some (line, start + 1) := by
  rw [first?, h, Option.map_some]

theorem first?_pushed (lines : List (List Char)) (start : Nat) (rest : Pushed) :
    first? lines start (some rest) = some (rest.line, start) := rfl

theorem StatementReads.brace (hfirst : first? lines start pushed = some (['{'], index))
    (hindex : index ≤ lines.length) (h : BlockReads (collect lines 1 index).1 0 visits) :
    StatementReads start pushed ['{'] lines index (collect lines 1 index).2
      [.block (collect lines 1 index).1 visits] where
  settles := by
    refine .of_step fun steps hsteps => ?_
    have hblock := h.collected steps (by omega)
    rw [statement, hfirst, (Outline.statement_block _).1, Outline.stmt?]
    simp only [Option.bind_eq_bind, Option.bind_some, ↓reduceIte, hblock]
  behind := (collect_eq lines 1 index).2.trans (Outline.statement_block _).2.symm
  passes := collect_passes hindex h.passes

theorem StatementReads.single (hfirst : first? lines start pushed = some (line, index))
    (hindex : index ≤ lines.length) (hbrace : line ≠ ['{']) (hheader : header? line = none) :
    StatementReads start pushed line lines index index [] where
  settles := by
    refine .of_step fun steps _ => ?_
    rw [statement, hfirst, (Outline.statement_single hbrace hheader _).1, Outline.stmt?]
    simp only [Option.bind_eq_bind, Option.bind_some, if_neg hbrace, hheader]
  behind := (Outline.statement_single hbrace hheader _).2.symm
  passes := .nil (Nat.le_refl _) hindex

theorem StatementReads.control (hfirst : first? lines start pushed = some (line, index))
    (hbrace : line ≠ ['{']) (hheader : header? line = some (keyword, span))
    (h : ControlReads keyword span line lines index next visits) :
    StatementReads start pushed line lines index next visits where
  settles := by
    refine .of_step fun steps hsteps => ?_
    have hcontrol := h.settles steps (by omega)
    rw [statement, hfirst]
    simp only [Option.bind_eq_bind, Option.bind_some, if_neg hbrace, hheader, hcontrol]
  behind := h.behind
  passes := h.passes

/-! ### Statements with a header -/

theorem ControlReads.unclosed (hbrace : line ≠ ['{'])
    (hheader : header? line = some (keyword, span)) (hspan : Source.parenSpan? span = none)
    (hindex : index ≤ lines.length) :
    ControlReads keyword span line lines index index [] where
  settles := by
    refine .of_step fun steps _ => ?_
    rw [ByIndex.control, hspan, (Outline.statement_unclosed hbrace hheader hspan _).1,
      Outline.stmt?]
  behind := (Outline.statement_unclosed hbrace hheader hspan _).2.symm
  passes := .nil (Nat.le_refl _) hindex

/-- The steps that the body takes are among those of its statement. -/
theorem header_steps (lines : List (List Char)) (index : Nat)
    (hheader : header? line = some (keyword, span))
    (hspan : Source.parenSpan? span = some (header, tail)) :
    4 * (tail.length + linesSize (lines.drop index)) + 2 <
      4 * (line.length + linesSize (lines.drop index)) := by
  have hline := header?_length_le hheader
  have htail := Source.parenSpan?_length hspan
  omega

theorem ControlReads.whileLoop (hbrace : line ≠ ['{'])
    (hheader : header? line = some (.whileLoop, span))
    (hspan : Source.parenSpan? span = some (header, tail))
    (h : BodyReads ⟨tail, line⟩ lines index next visits) :
    ControlReads .whileLoop span line lines index next visits where
  settles := by
    have hlt := header_steps lines index hheader hspan
    refine .of_step fun steps hsteps => ?_
    have hbody := h.settles steps (Nat.lt_of_lt_of_le hlt hsteps)
    rw [ByIndex.control, hspan, (Outline.statement_whileLoop hbrace hheader hspan _).1,
      Outline.stmt?]
    simp only [Option.bind_eq_bind, Option.bind_some, hbody]
  behind := h.behind.trans (Outline.statement_whileLoop hbrace hheader hspan _).2.symm
  passes := h.passes

theorem ControlReads.forLoop (hbrace : line ≠ ['{'])
    (hheader : header? line = some (.forLoop, span))
    (hspan : Source.parenSpan? span = some (header, tail))
    (h : BodyReads ⟨tail, line⟩ lines index next visits) :
    ControlReads .forLoop span line lines index next visits where
  settles := by
    have hlt := header_steps lines index hheader hspan
    refine .of_step fun steps hsteps => ?_
    have hbody := h.settles steps (Nat.lt_of_lt_of_le hlt hsteps)
    rw [ByIndex.control, hspan, (Outline.statement_forLoop hbrace hheader hspan _).1,
      Outline.stmt?]
    simp only [Option.bind_eq_bind, Option.bind_some, hbody]
  behind := h.behind.trans (Outline.statement_forLoop hbrace hheader hspan _).2.symm
  passes := h.passes

theorem ControlReads.branch (hbrace : line ≠ ['{'])
    (hheader : header? line = some (.branch, span))
    (hspan : Source.parenSpan? span = some (header, tail))
    (h : BodyReads ⟨tail, line⟩ lines index next visits)
    (hnone : ∀ below ∈ lines[next]?, otherwise? below = none) :
    ControlReads .branch span line lines index next visits := by
  have hhead : ∀ below ∈ (Outline.body tail (lines.drop index)).2.1.head?,
      otherwise? below = none := by
    rw [← h.behind, List.head?_drop]
    exact hnone
  obtain ⟨hstmt, hleft⟩ := Outline.statement_branch hbrace hheader hspan hhead
  refine ⟨.of_step fun steps hsteps => ?_, h.behind.trans hleft.symm, h.passes⟩
  have hlt := header_steps lines index hheader hspan
  have hbody := h.settles steps (Nat.lt_of_lt_of_le hlt hsteps)
  have hother : (lines[next]?.bind fun below => (otherwise? below).map (Pushed.mk · below)) =
      none := by
    rw [Option.bind_eq_none_iff]
    exact fun below hbelow => Option.map_eq_none_iff.2 (hnone below hbelow)
  rw [ByIndex.control, hspan, hstmt, Outline.stmt?, Outline.otherStmts]
  simp only [Option.bind_eq_bind, Option.bind_some, hbody, hother]

/-- So are the steps that the other body takes. -/
theorem otherwise_steps (hbehind : lines.drop next = (Outline.body tail (lines.drop index)).2.1)
    (hbelow : lines[next]? = some below) {other : List Char} (hword : otherwise? below = some other)
    (line : List Char) :
    4 * (other.length + linesSize (lines.drop (next + 1))) + 2 <
      4 * (line.length + linesSize (lines.drop index)) := by
  have hshort := otherwise?_length_le hword
  have hsize : linesSize (lines.drop next) ≤ linesSize (lines.drop index) := by
    rw [hbehind]
    exact Behind.size_le _
  rw [linesSize_drop_of_getElem? hbelow] at hsize
  omega

theorem ControlReads.branchElse (hbrace : line ≠ ['{'])
    (hheader : header? line = some (.branch, span))
    (hspan : Source.parenSpan? span = some (header, tail))
    (h : BodyReads ⟨tail, line⟩ lines index next visits) (hbelow : lines[next]? = some below)
    {other : List Char} (hword : otherwise? below = some other)
    (hno : BodyReads ⟨other, below⟩ lines (next + 1) last more) :
    ControlReads .branch span line lines index last (visits ++ more) := by
  have hdrop := drop_of_getElem? hbelow
  obtain ⟨hstmt, hleft⟩ :=
    Outline.statement_branchElse hbrace hheader hspan (h.behind.symm.trans hdrop) hword
  refine ⟨.of_step fun steps hsteps => ?_, hno.behind.trans hleft.symm,
    h.passes.append (hno.passes.mono (Nat.le_succ next))⟩
  have hlt := header_steps lines index hheader hspan
  have hshort := otherwise_steps h.behind hbelow hword line
  have hbody := h.settles steps (by dsimp only; omega)
  have hothers := hno.settles steps (by dsimp only; omega)
  have hother : (lines[next]?.bind fun below => (otherwise? below).map (Pushed.mk · below)) =
      some ⟨other, below⟩ := by
    rw [hbelow, Option.bind_some, hword, Option.map_some]
  rw [ByIndex.control, hspan, hstmt, Outline.stmt?, Outline.otherStmts]
  simp only [Option.bind_eq_bind, Option.bind_some, hbody, hother, hothers]

/-! ### Bodies -/

theorem stmts_single (outline : Outline) : Outline.stmts [outline] = outline.stmt?.toList := by
  rw [Outline.stmts, Outline.stmts, List.append_nil]

theorem BodyReads.brace (hbrace : rest.line = ['{']) (hindex : index ≤ lines.length)
    (h : BlockReads (collect lines 1 index).1 0 visits) :
    BodyReads rest lines index (collect lines 1 index).2
      [.block (collect lines 1 index).1 visits] where
  settles := by
    refine .of_step fun steps hsteps => ?_
    have hblock := h.collected steps (by omega)
    rw [body, if_pos hbrace, hbrace, (Outline.body_brace _).1]
    simp only [Option.bind_eq_bind, Option.bind_some, hblock]
  behind := by
    rw [hbrace, (Outline.body_brace _).2]
    exact (collect_eq lines 1 index).2
  passes := collect_passes hindex h.passes

theorem BodyReads.ending (hnil : rest.line = []) (hindex : index ≤ lines.length)
    (hend : lines[index]? = none) : BodyReads rest lines index index [] := by
  have hdrop : lines.drop index = [] := List.drop_eq_nil_of_le (List.getElem?_eq_none_iff.1 hend)
  obtain ⟨hstmts, hleft⟩ := Outline.body_end
  refine ⟨.of_step fun steps _ => ?_, ?_, .nil (Nat.le_refl _) hindex⟩
  · rw [body, hnil, if_neg (by decide), if_pos rfl, hend, hdrop, hstmts, Outline.stmts]
  · rw [hnil, hdrop, hleft]

theorem BodyReads.braceBelow (hnil : rest.line = []) (hbelow : lines[index]? = some ['{'])
    (h : BodyReads ⟨['{'], ['{']⟩ lines (index + 1) next visits) :
    BodyReads rest lines index next visits := by
  have hsame : Outline.stmts (Outline.body [] (lines.drop index)).1 =
        Outline.stmts (Outline.body ['{'] (lines.drop (index + 1))).1 ∧
      (Outline.body [] (lines.drop index)).2.1 =
        (Outline.body ['{'] (lines.drop (index + 1))).2.1 := by
    obtain ⟨hbeside, hbesideLeft⟩ := Outline.body_brace (lines.drop (index + 1))
    obtain ⟨hunder, hunderLeft⟩ := Outline.body_braceBelow (lines.drop (index + 1))
    rw [drop_of_getElem? hbelow, hbeside, hbesideLeft, hunder, hunderLeft]
    exact ⟨rfl, rfl⟩
  have hsize := linesSize_drop_of_getElem? hbelow
  refine ⟨.of_step fun steps hsteps => ?_, ?_, h.passes.mono (Nat.le_succ index)⟩
  · have hbody := h.settles steps (by dsimp only; omega)
    rw [body, hnil, if_neg (by decide), if_pos rfl, hbelow, hsame.1]
    exact hbody
  · rw [hnil, hsame.2]
    exact h.behind

theorem BodyReads.under (hnil : rest.line = []) (hbelow : lines[index]? = some below)
    (hbrace : below ≠ ['{']) (h : StatementReads index none below lines (index + 1) next inside) :
    BodyReads rest lines index next [.statement index none next inside] := by
  obtain ⟨hstmts, hleft⟩ := Outline.body_below hbrace (lines.drop (index + 1))
  have hsize := linesSize_drop_of_getElem? hbelow
  refine ⟨.of_step fun steps hsteps => ?_, ?_,
    h.passes.fresh (.nil (Nat.le_refl _) h.passes.bounds.2)⟩
  · have hstatement := h.settles steps (by omega)
    rw [body, hnil, if_neg (by decide), if_pos rfl, hbelow, drop_of_getElem? hbelow, hstmts,
      stmts_single]
    simp only [Option.bind_eq_bind, Option.bind_some, if_neg hbrace, hstatement]
  · rw [hnil, drop_of_getElem? hbelow, hleft]
    exact h.behind

theorem BodyReads.beside (hbrace : rest.line ≠ ['{']) (hne : rest.line ≠ []) (hrest : rest.Left)
    (h : StatementReads index (some rest) rest.line lines index next inside) :
    BodyReads rest lines index next [.statement index (some rest) next inside] := by
  obtain ⟨hstmts, hleft⟩ := Outline.body_beside hbrace hne (lines.drop index)
  refine ⟨.of_step fun steps hsteps => ?_, h.behind.trans hleft.symm,
    h.passes.pushed hrest (.nil (Nat.le_refl _) h.passes.bounds.2)⟩
  have hstatement := h.settles steps (by omega)
  rw [body, if_neg hbrace, if_neg hne, hstmts, stmts_single]
  simp only [Option.bind_eq_bind, Option.bind_some, hstatement]

end

end ByIndex

end ToyC
