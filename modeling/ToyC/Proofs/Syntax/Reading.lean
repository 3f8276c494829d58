import ToyC.Proofs.Syntax.Writing

/-!
Reading back what was written. While an operand is read, the frames below it stay
as they are: nothing on top of them binds as tightly as an operator that the place
of the operand allows. So the tokens of an expression lead from an open place to
the same place with that expression in it, and a whole text gives its expression,
up to places.
-/

namespace ToyC

/-- Reading tokens from a state ends, without error, in a state with a property. -/
def Reads (tokens : List Token) (state : ReadState) (ends : ReadState → Prop) : Prop :=
  ∀ lexemes : List Lexeme, lexemes.map Lexeme.token = tokens →
    ∃ next, lexemes.foldlM ReadState.step state = .ok next ∧ ends next

namespace Reads

theorem nil {state : ReadState} {ends : ReadState → Prop} (h : ends state) :
    Reads [] state ends := by
  intro lexemes htokens
  rw [List.map_eq_nil_iff] at htokens
  subst htokens
  exact ⟨state, rfl, h⟩

theorem cons {token : Token} {tokens : List Token} {state : ReadState} {ends : ReadState → Prop}
    (h : ∀ pos, ∃ next, state.step ⟨token, pos⟩ = .ok next ∧ Reads tokens next ends) :
    Reads (token :: tokens) state ends := by
  intro lexemes htokens
  obtain ⟨⟨_, pos⟩, more, rfl, rfl, hmore⟩ := List.map_eq_cons_iff.mp htokens
  obtain ⟨next, hstep, hreads⟩ := h pos
  obtain ⟨last, hfold, hends⟩ := hreads more hmore
  refine ⟨last, ?_, hends⟩
  rw [List.foldlM_cons, hstep]
  exact hfold

theorem append {front back : List Token} {state : ReadState} {between ends : ReadState → Prop}
    (hfront : Reads front state between)
    (hback : ∀ next, between next → Reads back next ends) :
    Reads (front ++ back) state ends := by
  intro lexemes htokens
  obtain ⟨first, second, rfl, hfirst, hsecond⟩ := List.map_eq_append_iff.mp htokens
  obtain ⟨next, hfold, hbetween⟩ := hfront first hfirst
  obtain ⟨last, hlast, hends⟩ := hback next hbetween second hsecond
  refine ⟨last, ?_, hends⟩
  rw [List.foldlM_append, hfold]
  exact hlast

theorem imp {tokens : List Token} {state : ReadState} {first second : ReadState → Prop}
    (h : Reads tokens state first) (himp : ∀ next, first next → second next) :
    Reads tokens state second := by
  intro lexemes htokens
  obtain ⟨next, hfold, hfirst⟩ := h lexemes htokens
  exact ⟨next, hfold, himp next hfirst⟩

end Reads

namespace ReadState

/-- The stack and the operand, where an operand has ended. -/
def ended? : ReadState → Option (List Frame × Expr)
  | .operand _ => none
  | .named stack pos ident => some (stack, .name pos ident)
  | .operator stack left => some (stack, left)

theorem step_ended {state : ReadState} {stack : List Frame} {left : Expr} {lexeme : Lexeme}
    (h : state.ended? = some (stack, left)) (htoken : lexeme.token ≠ .leftParen) :
    state.step lexeme = stepOperator stack left lexeme := by
  cases state with
  | operand below => cases h
  | operator below e =>
      cases h
      rfl
  | named below pos ident =>
      cases h
      rw [step]
      split
      · rename_i heq
        exact absurd heq htoken
      · rfl

theorem push_of_le {frame : Frame} {stack : List Frame}
    (h : nesting (frame :: stack) ≤ maxNesting) :
    push frame stack = .ok (.operand (frame :: stack)) := by
  rw [push, if_neg (Nat.not_lt.mpr h)]

theorem nesting_cons (frame : Frame) (stack : List Frame) :
    nesting (frame :: stack) = frame.cost + nesting stack :=
  rfl

end ReadState

namespace Expr

open ReadState

/-- No operator that a level allows joins the frames of a stack. -/
def Ready (level : Nat) (stack : List Frame) : Prop :=
  ∀ (op : BinaryOp) (e : Expr), level ≤ op.level → join op.level stack e = (stack, e)

/-- An expression has been read in front of a stack: what may lie on top of the stack joins to
that expression under every operator that a level does not forbid. -/
def Yields (level : Nat) (stack : List Frame) (e : Expr) (state : ReadState) : Prop :=
  ∃ below left read, state.ended? = some (below, left) ∧ read.unplaced = e.unplaced ∧
    ∀ m, m ≤ level → join m below left = join m stack read

theorem Yields.operand {level : Nat} {stack : List Frame} {e read : Expr} {state : ReadState}
    (hended : state.ended? = some (stack, read)) (h : read.unplaced = e.unplaced) :
    Yields level stack e state :=
  ⟨stack, read, read, hended, h, fun _ _ => rfl⟩

theorem allUnplaced_eq_map (es : List Expr) : allUnplaced es = es.map unplaced := by
  induction es with
  | nil => rfl
  | cons e rest ih => rw [allUnplaced, List.map_cons, ih]

theorem level_le_six (op : BinaryOp) : op.level ≤ 6 := by
  cases op with
  | compare test => cases test <;> decide
  | arith op => cases op <;> decide
  | _ => decide

/-- A sign, and the operand behind it, which no operator takes from it. -/
theorem unary_reads {operand : Expr} (pos : Position) (op : UnaryOp) {level : Nat}
    {stack : List Frame} (hroom : 1 + nesting stack ≤ maxNesting) (hlevel : level ≤ operandLevel)
    (hoperand : ∀ below, nesting below = 1 + nesting stack → Ready operandLevel below →
      Reads (operand.tokens operandLevel) (.operand below) (Yields operandLevel below operand)) :
    Reads (op.token :: operand.tokens operandLevel) (.operand stack)
      (Yields level stack (.unary pos op operand)) := by
  apply Reads.cons
  intro signpos
  have hnesting : nesting (.unary signpos op :: stack) = 1 + nesting stack := nesting_cons _ _
  have hpush :
      push (.unary signpos op) stack = .ok (.operand (.unary signpos op :: stack)) :=
    push_of_le (hnesting ▸ hroom)
  refine ⟨.operand (.unary signpos op :: stack), ?_, ?_⟩
  · cases op with
    | neg => exact hpush
    | not => exact hpush
  · have hready : Ready operandLevel (.unary signpos op :: stack) := by
      intro other e hother
      have := level_le_six other
      rw [operandLevel] at hother
      omega
    apply (hoperand _ hnesting hready).imp
    rintro next ⟨below, left, read, hended, hread, hjoin⟩
    refine ⟨below, left, .unary signpos op read, hended, ?_, ?_⟩
    · rw [unplaced, unplaced, hread]
    · intro m hm
      rw [hjoin m (Nat.le_trans hm hlevel), join]

/-- What is read between parentheses is an operand behind them. -/
theorem paren_reads {e : Expr} {tokens : List Token} {level : Nat} {stack : List Frame}
    (hroom : nesting (.paren :: stack) ≤ maxNesting)
    (h : Reads tokens (.operand (.paren :: stack)) (Yields 0 (.paren :: stack) e)) :
    Reads (.leftParen :: (tokens ++ [.rightParen])) (.operand stack) (Yields level stack e) := by
  apply Reads.cons
  intro openpos
  refine ⟨.operand (.paren :: stack), push_of_le hroom, ?_⟩
  apply h.append
  rintro middle ⟨below, operand, read, hended, hread, hjoin⟩
  have hclosed : join 0 below operand = (.paren :: stack, read) := by
    rw [hjoin 0 (Nat.le_refl _)]
    rfl
  apply Reads.cons
  intro closepos
  refine ⟨.operator stack read, ?_, ?_⟩
  · rw [step_ended hended (by simp)]
    simp [stepOperator, hclosed]
  · exact Reads.nil (Yields.operand rfl hread)

/-- An operator between two operands that bind tightly enough for it. -/
theorem binary_reads {left right : Expr} (pos : Position) {op : BinaryOp} {level : Nat}
    {stack : List Frame} (hroom : 1 + nesting stack ≤ maxNesting)
    (hleft : Reads (left.tokens op.level) (.operand stack) (Yields op.level stack left))
    (hright : ∀ below, nesting below = 1 + nesting stack → Ready (op.level + 1) below →
      Reads (right.tokens (op.level + 1)) (.operand below) (Yields (op.level + 1) below right))
    (hlevel : level ≤ op.level) (hready : Ready op.level stack) :
    Reads (left.tokens op.level ++ .operator op :: right.tokens (op.level + 1)) (.operand stack)
      (Yields level stack (.binary pos op left right)) := by
  apply hleft.append
  rintro middle ⟨below, operand, first, hended, hfirst, hjoin⟩
  apply Reads.cons
  intro oppos
  have hjoined : join op.level below operand = (stack, first) := by
    rw [hjoin op.level (Nat.le_refl _), hready op first (Nat.le_refl _)]
  have hnesting : nesting (.left first oppos op :: stack) = 1 + nesting stack := nesting_cons _ _
  refine ⟨.operand (.left first oppos op :: stack), ?_, ?_⟩
  · rw [step_ended hended (by simp)]
    simp only [stepOperator, hjoined]
    exact push_of_le (hnesting ▸ hroom)
  · have hready' : Ready (op.level + 1) (.left first oppos op :: stack) := by
      intro other e hother
      have hlt : ¬ other.level ≤ op.level := by omega
      rw [join, if_neg hlt]
    apply (hright _ hnesting hready').imp
    rintro last ⟨below', operand', second, hended', hsecond, hjoin'⟩
    refine ⟨below', operand', .binary oppos op first second, hended', ?_, ?_⟩
    · rw [unplaced, unplaced, hfirst, hsecond]
    · intro m hm
      have hmop : m ≤ op.level := Nat.le_trans hm hlevel
      rw [hjoin' m (Nat.le_succ_of_le hmop), join, if_pos hmop]

/-- The arguments behind one that has been read, and the end of their call. -/
theorem nextTokens_reads {args : List Expr} {pos : Position} {func : String}
    {stack : List Frame} {bound : Nat}
    (hargs : ∀ arg ∈ args, ∀ below, nesting below ≤ bound → Ready 0 below →
      Reads (arg.tokens 0) (.operand below) (Yields 0 below arg))
    {done : List Expr} (hbound : nesting (.call pos func [] :: stack) ≤ bound) {e : Expr}
    {state : ReadState} (hstate : Yields 0 (.call pos func done :: stack) e state) :
    Reads (nextTokens args) state fun next =>
      ∃ all, next = .operator stack (.call pos func all) ∧
        allUnplaced all = allUnplaced (done ++ e :: args) := by
  induction args generalizing done e state with
  | nil =>
      obtain ⟨below, left, read, hended, hread, hjoin⟩ := hstate
      have hcall : join 0 below left = (.call pos func done :: stack, read) := by
        rw [hjoin 0 (Nat.le_refl _)]
        rfl
      apply Reads.cons
      intro endpos
      refine ⟨.operator stack (.call pos func (done ++ [read])), ?_, ?_⟩
      · rw [step_ended hended (by simp)]
        simp [stepOperator, hcall]
      · apply Reads.nil
        refine ⟨_, rfl, ?_⟩
        simp [allUnplaced_eq_map, hread]
  | cons arg rest ih =>
      obtain ⟨below, left, read, hended, hread, hjoin⟩ := hstate
      have hcall : join 0 below left = (.call pos func done :: stack, read) := by
        rw [hjoin 0 (Nat.le_refl _)]
        rfl
      apply Reads.cons
      intro commapos
      refine ⟨.operand (.call pos func (done ++ [read]) :: stack), ?_, ?_⟩
      · rw [step_ended hended (by simp)]
        simp [stepOperator, hcall]
      · have harg := hargs arg List.mem_cons_self (.call pos func (done ++ [read]) :: stack)
          hbound (fun _ _ _ => rfl)
        apply harg.append
        intro next hnext
        apply (ih (fun other hother => hargs other (List.mem_cons_of_mem _ hother)) hnext).imp
        rintro last ⟨all, hlast, hall⟩
        refine ⟨all, hlast, ?_⟩
        rw [hall]
        simp [allUnplaced_eq_map, hread]

theorem argTokens_reads {args : List Expr} {pos : Position} {func : String}
    {stack : List Frame} {bound : Nat}
    (hargs : ∀ arg ∈ args, ∀ below, nesting below ≤ bound → Ready 0 below →
      Reads (arg.tokens 0) (.operand below) (Yields 0 below arg))
    (hbound : nesting (.call pos func [] :: stack) ≤ bound) :
    Reads (argTokens args) (.operand (.call pos func [] :: stack)) fun next =>
      ∃ all, next = .operator stack (.call pos func all) ∧
        allUnplaced all = allUnplaced args := by
  cases args with
  | nil =>
      apply Reads.cons
      intro endpos
      exact ⟨.operator stack (.call pos func []), rfl, Reads.nil ⟨[], rfl, rfl⟩⟩
  | cons arg rest =>
      have harg := hargs arg List.mem_cons_self (.call pos func [] :: stack)
        hbound (fun _ _ _ => rfl)
      apply harg.append
      intro next hnext
      exact nextTokens_reads (fun other hother => hargs other (List.mem_cons_of_mem _ hother))
        hbound hnext

theorem depth_le_argDepth {arg : Expr} {args : List Expr} (h : arg ∈ args) :
    arg.depth 0 ≤ argDepth args := by
  induction args with
  | nil => cases h
  | cons e rest ih =>
      rw [argDepth]
      rcases List.mem_cons.mp h with rfl | hrest
      · exact Nat.le_max_left _ _
      · exact Nat.le_trans (ih hrest) (Nat.le_max_right _ _)

/-- The tokens of an expression lead from an open place to the expression, when no operator of
the place's level joins what lies below it and the depth is not exceeded. -/
theorem Writable.reads {e : Expr} (h : e.Writable) {level : Nat} (hlevel : level ≤ operandLevel)
    {stack : List Frame} (hready : Ready level stack)
    (hdepth : nesting stack + e.depth level ≤ maxNesting) :
    Reads (e.tokens level) (.operand stack) (Yields level stack e) := by
  -- The induction is over the tree; a left operand is read at the level of its operator, a
  -- right operand one level tighter, and whatever parentheses enclose at level zero.
  induction h generalizing level stack with
  | number pos hnonneg hsize =>
      apply Reads.cons
      intro readpos
      exact ⟨_, rfl, Reads.nil (Yields.operand rfl rfl)⟩
  | text pos s =>
      apply Reads.cons
      intro readpos
      exact ⟨_, rfl, Reads.nil (Yields.operand rfl rfl)⟩
  | name pos hident =>
      apply Reads.cons
      intro readpos
      exact ⟨_, rfl, Reads.nil (Yields.operand rfl rfl)⟩
  | @unary pos op operand hoperand ih =>
      rw [depth, Frame.cost] at hdepth
      apply unary_reads pos op (by omega) hlevel
      intro below hbelow hready'
      exact ih (Nat.le_refl _) hready' (by omega)
  | @binary pos op left right hleft hright ihleft ihright =>
      rw [depth] at hdepth
      have hop : op.level + 1 ≤ operandLevel := Nat.succ_le_succ (level_le_six op)
      have hmaxleft := Nat.le_max_left (left.depth op.level) (1 + right.depth (op.level + 1))
      have hmaxright := Nat.le_max_right (left.depth op.level) (1 + right.depth (op.level + 1))
      rw [tokens]
      split
      · rename_i hparen
        rw [if_pos hparen, Frame.cost, Frame.cost] at hdepth
        have hnesting : nesting (.paren :: stack) = 12 + nesting stack := nesting_cons _ _
        have hready' : Ready op.level (.paren :: stack) := fun _ _ _ => rfl
        have hfirst := ihleft (Nat.le_of_succ_le hop) hready' (by omega)
        apply paren_reads (by omega)
        exact binary_reads pos (by omega) hfirst
          (fun below hbelow hsecond => ihright hop hsecond (by omega)) (Nat.zero_le _) hready'
      · rename_i hparen
        rw [if_neg hparen, Nat.zero_add, Frame.cost] at hdepth
        have hle : level ≤ op.level := Nat.not_lt.mp hparen
        have hready' : Ready op.level stack := fun other e hother =>
          hready other e (Nat.le_trans hle hother)
        have hfirst := ihleft (Nat.le_of_succ_le hop) hready' (by omega)
        exact binary_reads pos (by omega) hfirst
          (fun below hbelow hsecond => ihright hop hsecond (by omega)) hle hready'
  | @call pos func args hfunc hargs ih =>
      rw [depth, Frame.cost] at hdepth
      apply Reads.cons
      intro namepos
      refine ⟨.named stack namepos func, rfl, ?_⟩
      apply Reads.cons
      intro openpos
      have hnesting : nesting (.call namepos func [] :: stack) = 14 + nesting stack :=
        nesting_cons _ _
      refine ⟨.operand (.call namepos func [] :: stack), push_of_le (by omega), ?_⟩
      have hargs : ∀ arg ∈ args, ∀ below, nesting below ≤ 14 + nesting stack → Ready 0 below →
          Reads (arg.tokens 0) (.operand below) (Yields 0 below arg) := by
        intro arg harg below hbelow hready
        have hdeep := depth_le_argDepth harg
        exact ih arg harg (Nat.zero_le _) hready (by omega)
      have hread := argTokens_reads hargs (Nat.le_of_eq hnesting)
      apply hread.imp
      rintro next ⟨all, rfl, hall⟩
      apply Yields.operand rfl
      rw [unplaced, unplaced, hall]

theorem literalErrors_of_plain {lexemes : List Lexeme}
    (h : ∀ token ∈ lexemes.map Lexeme.token, token.Plain) : literalErrors lexemes = [] := by
  rw [literalErrors, List.filterMap_eq_nil_iff]
  intro lexeme hlexeme
  have hplain := h lexeme.token (List.mem_map_of_mem hlexeme)
  split
  · rename_i cause htoken
    rw [htoken] at hplain
    exact absurd hplain id
  · rfl

/-- A text that writes an expression, with any gaps, gives this expression. -/
theorem Writable.parse {e : Expr} (h : e.Writable) (hdepth : e.depth 0 ≤ maxNesting)
    {breaks : Bool} {text tail : List Char}
    (hspaced : Spaced Token.isGap ((e.tokens 0).map (Token.spell breaks)) text)
    (htail : ∀ c ∈ tail, Token.isGap c = true) :
    ∃ read, Expr.parse (text ++ tail) = .ok read ∧ read.unplaced = e.unplaced := by
  have hflow := h.flow 0
  obtain ⟨lexemes, hlexemes, htokens⟩ := lexemes?_spaced hflow hspaced htail {}
  have hbottom : nesting [] + e.depth 0 ≤ maxNesting := by
    rw [nesting, Nat.zero_add]
    exact hdepth
  obtain ⟨state, hfold, below, left, read, hended, hread, hjoin⟩ :=
    h.reads (Nat.zero_le _) (fun _ _ _ => rfl) hbottom lexemes htokens
  have hjoined : join 0 below left = ([], read) := by
    rw [hjoin 0 (Nat.le_refl _)]
    rfl
  have hfinish : state.finish = .ok read := by
    cases state with
    | operand stack => cases hended
    | named stack pos ident =>
        cases hended
        simp [finish, finish.close, hjoined]
    | operator stack operand =>
        cases hended
        simp [finish, finish.close, hjoined]
  have herrors : literalErrors lexemes = [] := by
    apply literalErrors_of_plain
    rw [htokens]
    exact hflow.plain
  refine ⟨read, ?_, hread⟩
  rw [Expr.parse, hlexemes]
  simp only [ofLexemes, hfold, herrors]
  change (state.finish >>= fun e => pure e) = Except.ok read
  rw [hfinish]
  rfl

/-- Reading undoes writing. The parentheses stand only where the levels of the operators and
their grouping to the left require them, and any gaps stand around the tokens. -/
theorem read_written {e : Expr} (h : e.Writable) (hdepth : e.depth 0 ≤ maxNesting)
    {text tail : List Char}
    (hspaced : Spaced Token.isGap ((e.tokens 0).map (Token.spell false)) text)
    (htail : ∀ c ∈ tail, Token.isGap c = true) :
    (Expr.read (text ++ tail)).unplaced = e.unplaced := by
  obtain ⟨read, hparse, hread⟩ := h.parse hdepth hspaced htail
  rw [Expr.read, hparse]
  exact hread

/-- `-x*(1 - (2-3)) < f("a\"", !y)`, with a tab, a newline and a carriage return as gaps: the
product needs parentheses on its right, the difference on its own right, the rest none. -/
theorem read_written_mixed :
    let e : Expr :=
      .binary {} (.compare .lt)
        (.binary {} (.arith .mul) (.unary {} .neg (.name {} "x"))
          (.binary {} (.arith .sub) (.literal {} (.number 1))
            (.binary {} (.arith .sub) (.literal {} (.number 2)) (.literal {} (.number 3)))))
        (.call {} "f" [.literal {} (.text "a\""), .unary {} .not (.name {} "y")])
    e.Writable ∧ e.depth 0 ≤ maxNesting ∧
      (Expr.read "\t-x*(1 -\n(2-3)) < f( \"a\\\"\" ,!y)\r".toList).unplaced = e.unplaced := by
  intro e
  have hwritable : e.Writable := by
    apply Writable.binary
    · apply Writable.binary
      · exact Writable.unary {} .neg (Writable.name {} (by decide))
      · apply Writable.binary
        · exact Writable.number {} (by decide) (by decide)
        · apply Writable.binary
          · exact Writable.number {} (by decide) (by decide)
          · exact Writable.number {} (by decide) (by decide)
    · apply Writable.call {} (by decide)
      intro arg harg
      simp only [List.mem_cons, List.not_mem_nil, or_false] at harg
      rcases harg with rfl | rfl
      · exact Writable.text {} "a\""
      · exact Writable.unary {} .not (Writable.name {} (by decide))
  have hdepth : e.depth 0 ≤ maxNesting := by decide
  refine ⟨hwritable, hdepth, ?_⟩
  let gaps : List (List Char) :=
    [['\t'], [], [], [], [], [' '], ['\n'], [], [], [], [], [], [' '], [' '], [], [' '], [' '], [],
      [], []]
  have hspaced : Spaced Token.isGap ((e.tokens 0).map (Token.spell false))
      "\t-x*(1 -\n(2-3)) < f( \"a\\\"\" ,!y)".toList := by
    have hgaps : ∀ space ∈ gaps, ∀ c ∈ space, Token.isGap c = true := by decide
    exact Spaced.of_gaps hgaps rfl
  have htail : ∀ c ∈ ['\r'], Token.isGap c = true := by decide
  exact read_written hwritable hdepth hspaced htail

end Expr

end ToyC
