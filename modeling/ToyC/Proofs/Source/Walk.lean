import ToyC.Source.Escape
import ToyC.Proofs.Text
import ToyC.Source.Argument
import ToyC.Source.Line
import ToyC.Source.Span

/-!
Texts that no scan of program text cuts. Such a text closes its literals, has no
brace and no newline, and leads from one depth of parentheses to another; a
separator stands in it only inside parentheses. Each scan takes such a text whole:
the one for logical lines, the one for lists, and the one for headers, which
counts parentheses inside literals too.
-/

namespace ToyC.Source

open Text (consHead isBlank trim)

/-- Characters that end a logical line wherever they stand outside literals and parentheses. -/
def breaksLine (c : Char) : Bool :=
  c == '\n' || c == '{' || c == '}'

/-- Characters that are counted also inside literals. -/
def isBracket (c : Char) : Bool :=
  c == '(' || c == ')' || c == '{' || c == '}'

theorem ne_paren_of_not_bracket {c : Char} (h : isBracket c = false) : c ≠ '(' ∧ c ≠ ')' := by
  simp only [isBracket, Bool.or_eq_false_iff, beq_eq_false_iff_ne] at h
  exact ⟨h.1.1.1, h.1.1.2⟩

theorem breaksLine_of_not_bracket {c : Char} (h : isBracket c = false) (hline : c ≠ '\n') :
    breaksLine c = false := by
  simp only [isBracket, Bool.or_eq_false_iff] at h
  simp [breaksLine, hline, h.1.2, h.2]

/-- A text that leads from one depth of parentheses to another and has no separator at depth
zero. -/
inductive Walk (sep : Char → Bool) : Nat → List Char → Nat → Prop
  | nil (depth : Nat) : Walk sep depth [] depth
  | plain {depth last : Nat} {c : Char} {text : List Char} (hquote : isQuote c = false)
      (hbracket : isBracket c = false) (hline : c ≠ '\n') (hsep : depth = 0 → sep c = false)
      (rest : Walk sep depth text last) : Walk sep depth (c :: text) last
  | opening {depth last : Nat} {text : List Char} (rest : Walk sep (depth + 1) text last) :
      Walk sep depth ('(' :: text) last
  | closing {depth last : Nat} {text : List Char} (rest : Walk sep depth text last) :
      Walk sep (depth + 1) (')' :: text) last
  | literal {depth last : Nat} {s text : List Char} (hs : ∀ c ∈ s, isBracket c = false)
      (rest : Walk sep depth text last) :
      Walk sep depth ('"' :: (escape true s ++ '"' :: text)) last

namespace Walk

variable {sep : Char → Bool} {depth last : Nat} {text : List Char}

theorem append {middle : Nat} {front back : List Char} (hfront : Walk sep depth front middle)
    (hback : Walk sep middle back last) : Walk sep depth (front ++ back) last := by
  induction hfront with
  | nil depth => exact hback
  | plain hquote hbracket hline hsep rest ih => exact plain hquote hbracket hline hsep (ih hback)
  | opening rest ih => exact opening (ih hback)
  | closing rest ih => exact closing (ih hback)
  | literal hs rest ih =>
      rw [List.cons_append, List.append_assoc]
      exact literal hs (ih hback)

/-- What is no separator need not be avoided. -/
theorem mono {fewer : Char → Bool} (h : Walk sep depth text last)
    (himp : ∀ c, fewer c = true → sep c = true) : Walk fewer depth text last := by
  induction h with
  | nil depth => exact nil depth
  | @plain depth _ c _ hquote hbracket hline hsep rest ih =>
      refine plain hquote hbracket hline (fun hzero => ?_) ih
      have hc := hsep hzero
      cases hfew : fewer c with
      | false => rfl
      | true => rw [himp c hfew] at hc; cases hc
  | opening rest ih => exact opening ih
  | closing rest ih => exact closing ih
  | literal hs rest ih => exact literal hs ih

/-- Inside one more parenthesis no separator counts. -/
theorem deeper (other : Char → Bool) (h : Walk sep depth text last) :
    Walk other (depth + 1) text (last + 1) := by
  induction h with
  | nil depth => exact nil _
  | plain hquote hbracket hline hsep rest ih =>
      exact plain hquote hbracket hline (fun hzero => nomatch hzero) ih
  | opening rest ih => exact opening ih
  | closing rest ih => exact closing ih
  | literal hs rest ih => exact literal hs ih

/-- A run of characters that are no quotes, no brackets and no separators. -/
theorem run {word : List Char} (depth : Nat) (h : ∀ c ∈ word, isQuote c = false ∧
    isBracket c = false ∧ c ≠ '\n' ∧ sep c = false) : Walk sep depth word depth := by
  induction word with
  | nil => exact nil depth
  | cons c rest ih =>
      obtain ⟨hquote, hbracket, hline, hsep⟩ := h c List.mem_cons_self
      have hrest := ih fun d hd => h d (List.mem_cons_of_mem _ hd)
      exact plain hquote hbracket hline (fun _ => hsep) hrest

/-- A walk that ends at depth zero does not end with a separator. -/
theorem last_ne (hsep : sep '"' = false ∧ sep '(' = false ∧ sep ')' = false)
    (h : Walk sep depth text last) (hlast : last = 0) : ∀ c ∈ text.getLast?, sep c = false := by
  have hcons : ∀ {c : Char} {rest : List Char}, (rest = [] → sep c = false) →
      (∀ d ∈ rest.getLast?, sep d = false) → ∀ d ∈ (c :: rest).getLast?, sep d = false := by
    intro c rest hc hrest d hd
    cases rest with
    | nil => cases hd; exact hc rfl
    | cons e rest => exact hrest d (by rwa [List.getLast?_cons_cons] at hd)
  induction h with
  | nil depth => intro c hc; cases hc
  | plain hquote hbracket hline hplain rest ih =>
      apply hcons _ (ih hlast)
      rintro rfl
      cases rest
      exact hplain hlast
  | opening rest ih => exact hcons (fun _ => hsep.2.1) (ih hlast)
  | closing rest ih => exact hcons (fun _ => hsep.2.2) (ih hlast)
  | @literal _ _ s text _ rest ih =>
      intro c hc
      rw [← List.cons_append, List.getLast?_append, List.getLast?_cons, Option.some_or,
        ← List.getLast?_cons] at hc
      exact hcons (fun _ => hsep.1) (ih hlast) c hc

theorem not_breaksLine (h : Walk sep depth text last) : ∀ c ∈ text, breaksLine c = false := by
  induction h with
  | nil depth => intro c hc; cases hc
  | plain hquote hbracket hline hsep rest ih =>
      intro c hc
      rcases List.mem_cons.mp hc with rfl | hrest
      · exact breaksLine_of_not_bracket hbracket hline
      · exact ih c hrest
  | opening rest ih =>
      intro c hc
      rcases List.mem_cons.mp hc with rfl | hrest
      · rfl
      · exact ih c hrest
  | closing rest ih =>
      intro c hc
      rcases List.mem_cons.mp hc with rfl | hrest
      · rfl
      · exact ih c hrest
  | literal hs rest ih =>
      intro c hc
      simp only [List.mem_cons, List.mem_append] at hc
      rcases hc with rfl | hbody | rfl | hrest
      · rfl
      · rcases mem_escape hbody with rfl | rfl | ⟨hmem, hbreak⟩
        · rfl
        · rfl
        · exact breaksLine_of_not_bracket (hs c hmem) (hbreak rfl)
      · rfl
      · exact ih c hrest

end Walk

/-! ### The cursor of a scan -/

/-- A character at which a scan for logical lines or for a separator may cut. -/
def Cursor.Cuts (sep : Char → Bool) (cursor : Cursor) (c : Char) : Prop :=
  (cursor.outside = true ∧ breaksLine c = true) ∨ (cursor.top = true ∧ sep c = true)

/-- A text that moves a cursor from one state to another and is cut nowhere. -/
inductive Uncut (sep : Char → Bool) : Cursor → List Char → Cursor → Prop
  | nil (cursor : Cursor) : Uncut sep cursor [] cursor
  | cons {cursor last : Cursor} {c : Char} {text : List Char} (h : ¬cursor.Cuts sep c)
      (rest : Uncut sep (cursor.step c) text last) : Uncut sep cursor (c :: text) last

namespace Uncut

variable {sep : Char → Bool}

theorem append {first middle last : Cursor} {front back : List Char}
    (hfront : Uncut sep first front middle) (hback : Uncut sep middle back last) :
    Uncut sep first (front ++ back) last := by
  induction hfront with
  | nil cursor => exact hback
  | cons h rest ih => exact cons h (ih hback)

/-- Inside a literal nothing is cut. -/
theorem inside {cursor last : Cursor} {c quote : Char} {text : List Char}
    (hquote : cursor.quote = some quote) (rest : Uncut sep (cursor.step c) text last) :
    Uncut sep cursor (c :: text) last := by
  apply cons _ rest
  simp [Cursor.Cuts, Cursor.top, Cursor.outside, hquote]

/-- The inside of a string literal leaves the literal open. -/
theorem escaped (breaks : Bool) (depth : Nat) (s : List Char) :
    Uncut sep ⟨some '"', false, depth⟩ (escape breaks s) ⟨some '"', false, depth⟩ := by
  induction s with
  | nil => exact nil _
  | cons c rest ih =>
      rw [escape]
      split
      · exact inside rfl (inside rfl ih)
      · split
        · exact inside rfl (inside rfl ih)
        · rename_i hc _
          apply inside rfl
          have hslash : c ≠ '\\' := fun heq => hc (Or.inl heq)
          have hquote : c ≠ '"' := fun heq => hc (Or.inr heq)
          simpa [Cursor.step, hslash, hquote] using ih

theorem literal {last : Cursor} {depth : Nat} {text : List Char} (hsep : sep '"' = false)
    (s : List Char) (rest : Uncut sep ⟨none, false, depth⟩ text last) :
    Uncut sep ⟨none, false, depth⟩ ('"' :: (escape true s ++ '"' :: text)) last := by
  apply cons
  · simp [Cursor.Cuts, breaksLine, hsep]
  · exact (escaped true depth s).append (inside rfl rest)

end Uncut

/-- A walk from one depth to another moves the cursor likewise, and is not cut. -/
theorem Walk.uncut {sep : Char → Bool} (hquote : sep '"' = false) (hopen : sep '(' = false)
    {depth last : Nat} {text : List Char} (h : Walk sep depth text last) :
    Uncut sep { depth } text { depth := last } := by
  induction h with
  | nil depth => exact Uncut.nil _
  | @plain depth _ c _ hquote hbracket hline hsep rest ih =>
      have hparens := ne_paren_of_not_bracket hbracket
      have hbreaks := breaksLine_of_not_bracket hbracket hline
      apply Uncut.cons
      · rintro (⟨-, hcut⟩ | ⟨htop, hcut⟩)
        · rw [hbreaks] at hcut
          cases hcut
        · have hzero : depth = 0 := by simpa [Cursor.top, Cursor.outside] using htop
          rw [hsep hzero] at hcut
          cases hcut
      · simpa [Cursor.step, hquote, hparens.1, hparens.2] using ih
  | opening rest ih =>
      apply Uncut.cons
      · simp [Cursor.Cuts, breaksLine, hopen]
      · exact ih
  | closing rest ih =>
      apply Uncut.cons
      · simp [Cursor.Cuts, Cursor.top, breaksLine]
      · exact ih
  | literal hs rest ih => exact Uncut.literal hquote _ ih

/-! ### The pieces of a scan -/

/-- Put a run of characters in front of the first piece. -/
def joinHead (run : List Char) (pieces : List (List Char)) : List (List Char) :=
  run.foldr consHead pieces

theorem joinHead_cons (run piece : List Char) (pieces : List (List Char)) :
    joinHead run (piece :: pieces) = (run ++ piece) :: pieces := by
  induction run with
  | nil => rfl
  | cons c rest ih =>
      rw [joinHead] at ih
      rw [joinHead, List.foldr_cons, ih]
      rfl

theorem linePieces_uncut {cursor last : Cursor} {text : List Char}
    (h : Uncut (· == ';') cursor text last) (rest : List Char) :
    linePieces cursor (text ++ rest) = joinHead text (linePieces last rest) := by
  induction h with
  | nil cursor => rfl
  | @cons cursor _ c _ hcuts _ ih =>
      simp only [Cursor.Cuts, breaksLine, Bool.or_eq_true, beq_iff_eq, not_or, not_and] at hcuts
      obtain ⟨houtside, htop⟩ := hcuts
      have htop_outside : cursor.top = true → cursor.outside = true := by
        intro h
        rw [Cursor.top, Bool.and_eq_true] at h
        exact h.1
      have hnewline : ¬(cursor.outside = true ∧ c = '\n') := fun h => (houtside h.1).1.1 h.2
      have hclose : ¬(cursor.top = true ∧ c = '}') := fun h =>
        (houtside (htop_outside h.1)).2 h.2
      have hend : ¬(cursor.top = true ∧ (c = ';' ∨ c = '{')) := by
        rintro ⟨hc, rfl | rfl⟩
        · exact htop hc rfl
        · exact (houtside (htop_outside hc)).1.2 rfl
      rw [List.cons_append, linePieces, if_neg hnewline, if_neg hclose, if_neg hend, ih]
      rfl

theorem argumentPieces_uncut {separator : Char} {cursor last : Cursor} {text : List Char}
    (h : Uncut (· == separator) cursor text last) (rest : List Char) :
    argumentPieces separator cursor (text ++ rest) =
      joinHead text (argumentPieces separator last rest) := by
  induction h with
  | nil cursor => rfl
  | @cons cursor _ c _ hcuts _ ih =>
      simp only [Cursor.Cuts, beq_iff_eq, not_or, not_and] at hcuts
      rw [List.cons_append, argumentPieces, if_neg fun h => hcuts.2 h.1 h.2.1, ih]
      rfl

theorem closeSpan_plain {c : Char} (hopen : c ≠ '(') (hclose : c ≠ ')') {depth : Int}
    {text inside behind : List Char} (h : closeSpan depth text = some (inside, behind)) :
    closeSpan depth (c :: text) = some (c :: inside, behind) := by
  simp [closeSpan, hopen, hclose, h]

theorem closeSpan_run {run : List Char} (hrun : ∀ c ∈ run, c ≠ '(' ∧ c ≠ ')') {depth : Int}
    {text inside behind : List Char} (h : closeSpan depth text = some (inside, behind)) :
    closeSpan depth (run ++ text) = some (run ++ inside, behind) := by
  induction run with
  | nil => exact h
  | cons c run ih =>
      obtain ⟨hopen, hclose⟩ := hrun c List.mem_cons_self
      exact closeSpan_plain hopen hclose (ih fun d hd => hrun d (List.mem_cons_of_mem _ hd))

/-- The span of a parenthesis reaches past a walk inside it. -/
theorem closeSpan_walk {sep : Char → Bool} {depth last : Nat} {text rest inside behind : List Char}
    (h : Walk sep depth text last)
    (hrest : closeSpan (last + 1) rest = some (inside, behind)) :
    closeSpan (depth + 1) (text ++ rest) = some (text ++ inside, behind) := by
  induction h with
  | nil depth => exact hrest
  | plain hquote hbracket hline hsep walk ih =>
      have hparens := ne_paren_of_not_bracket hbracket
      exact closeSpan_plain hparens.1 hparens.2 (ih hrest)
  | @opening depth last text walk ih =>
      have hinner := ih hrest
      rw [List.cons_append, closeSpan, if_neg (by simp)]
      push_cast at hinner
      simp [hinner]
  | @closing depth last text walk ih =>
      have hinner := ih hrest
      have hdepth : ¬(')' = ')' ∧ ((depth + 1 : Nat) : Int) + 1 = 1) := by
        rintro ⟨-, hone⟩
        omega
      rw [List.cons_append, closeSpan, if_neg hdepth]
      simp [hinner]
  | @literal _ _ s _ hs walk ih =>
      have hbody : ∀ c ∈ escape true s, c ≠ '(' ∧ c ≠ ')' := by
        intro c hc
        rcases mem_escape hc with rfl | rfl | ⟨hmem, -⟩
        · decide
        · decide
        · exact ne_paren_of_not_bracket (hs c hmem)
      have hquote : '"' ≠ '(' ∧ '"' ≠ ')' := by decide
      have hclosed := closeSpan_plain hquote.1 hquote.2 (ih hrest)
      have hopened := closeSpan_plain hquote.1 hquote.2 (closeSpan_run hbody hclosed)
      simpa using hopened

end ToyC.Source
