import ToyC.Proofs.Source.Walk

/-!
Where logical lines stand in their text. They stand there one behind the other, in
their order, and only blanks are left between them. What a line may hold is said by
the cursor that runs over the whole text, from its start: a newline only inside a
literal, and, outside literals and parentheses, a semicolon or an opening brace only
at the end and a closing brace only alone.
-/

namespace ToyC.Source

open Text (isBlank trim Trimmed consHead)

/-! ### The running cursor -/

namespace Cursor

/-- The cursor behind a text. -/
def after (cursor : Cursor) (text : List Char) : Cursor :=
  text.foldl step cursor

theorem after_append (cursor : Cursor) (front back : List Char) :
    cursor.after (front ++ back) = (cursor.after front).after back :=
  List.foldl_append

theorem after_concat (cursor : Cursor) (front : List Char) (c : Char) :
    cursor.after (front ++ [c]) = (cursor.after front).step c :=
  after_append cursor front [c]

/-- Outside literals only quotes and parentheses move the cursor. -/
theorem step_outside {cursor : Cursor} {c : Char} (h : cursor.outside = true)
    (hquote : isQuote c = false) (hopen : c ≠ '(') (hclose : c ≠ ')') : cursor.step c = cursor := by
  rw [outside, Option.isNone_iff_eq_none] at h
  simp [step, h, hquote, hopen, hclose]

theorem outside_of_top {cursor : Cursor} (h : cursor.top = true) : cursor.outside = true := by
  rw [top, Bool.and_eq_true] at h
  exact h.1

/-- A character at which a logical line ends. -/
def Breaks (cursor : Cursor) (c : Char) : Prop :=
  (cursor.outside = true ∧ c = '\n') ∨ (cursor.top = true ∧ (c = ';' ∨ c = '{' ∨ c = '}'))

theorem step_of_breaks {cursor : Cursor} {c : Char} (h : cursor.Breaks c) :
    cursor.step c = cursor := by
  rcases h with ⟨houtside, rfl⟩ | ⟨htop, rfl | rfl | rfl⟩
  · exact step_outside houtside (by decide) (by decide) (by decide)
  all_goals exact step_outside (outside_of_top htop) (by decide) (by decide) (by decide)

end Cursor

/-! ### Lines at a cursor -/

/-- A line that holds one statement at most, or one brace, where it stands. The cursor is the one in
front of the line. -/
structure Isolated (cursor : Cursor) (line : List Char) : Prop where
  /-- a newline stands inside a literal -/
  newline : ∀ front back, line = front ++ '\n' :: back → (cursor.after front).outside = false
  /-- behind a semicolon or an opening brace at the top nothing stands -/
  ended : ∀ front c back, line = front ++ c :: back → c = ';' ∨ c = '{' →
    (cursor.after front).top = true → back = []
  /-- a closing brace at the top stands alone -/
  closing : ∀ front back, line = front ++ '}' :: back → (cursor.after front).top = true →
    front = [] ∧ back = []

/-- Lines that stand in a text one behind the other, with only blanks around them. The cursor is the
one in front of the text. -/
inductive Placed : Cursor → List (List Char) → List Char → Prop
  | nil {cursor : Cursor} {blank : List Char} (hblank : ∀ c ∈ blank, isBlank c = true) :
      Placed cursor [] blank
  | cons {cursor : Cursor} {gap line text : List Char} {lines : List (List Char)}
      (hgap : ∀ c ∈ gap, isBlank c = true) (htrim : Trimmed line)
      (hline : Isolated (cursor.after gap) line)
      (rest : Placed (cursor.after (gap ++ line)) lines text) :
      Placed cursor (line :: lines) (gap ++ (line ++ text))

/-- No line ends in a text. -/
def Unbroken (cursor : Cursor) (text : List Char) : Prop :=
  ∀ front c back, text = front ++ c :: back → ¬(cursor.after front).Breaks c

theorem Unbroken.nil (cursor : Cursor) : Unbroken cursor [] := by
  intro front c back h
  simp at h

/-- A character in a text with one more character is the last one or stands in the text. -/
theorem split_concat {text front back : List Char} {last c : Char}
    (h : text ++ [last] = front ++ c :: back) :
    (front = text ∧ c = last ∧ back = []) ∨ ∃ more, back = more ++ [last] ∧
      text = front ++ c :: more := by
  rcases List.eq_nil_or_concat back with rfl | ⟨more, d, rfl⟩
  · obtain ⟨rfl, hlast⟩ := List.append_inj' h rfl
    cases hlast
    exact Or.inl ⟨rfl, rfl, rfl⟩
  · rw [List.concat_eq_append, ← List.cons_append, ← List.append_assoc] at h
    obtain ⟨rfl, hlast⟩ := List.append_inj' h rfl
    cases hlast
    exact Or.inr ⟨more, List.concat_eq_append, rfl⟩

theorem split_single {front back : List Char} {last c : Char} (h : [last] = front ++ c :: back) :
    front = [] ∧ c = last ∧ back = [] := by
  rcases split_concat ((List.nil_append [last]).trans h) with hsplit | ⟨more, -, hnil⟩
  · exact hsplit
  · simp at hnil

namespace Isolated

variable {cursor : Cursor} {front : List Char}

theorem of_unbroken (h : Unbroken cursor front) : Isolated cursor front where
  newline before back heq := by
    have hbreaks := h before '\n' back heq
    rw [Cursor.Breaks, not_or] at hbreaks
    simpa using hbreaks.1
  ended before c back heq hc htop := by
    refine absurd (Or.inr ⟨htop, ?_⟩) (h before c back heq)
    exact hc.imp_right Or.inl
  closing before back heq htop :=
    absurd (Or.inr ⟨htop, Or.inr (Or.inr rfl)⟩) (h before '}' back heq)

/-- A line may end with a semicolon or an opening brace. -/
theorem concat (h : Unbroken cursor front) {last : Char} (hlast : last = ';' ∨ last = '{') :
    Isolated cursor (front ++ [last]) where
  newline before back heq := by
    rcases split_concat heq with ⟨-, rfl, -⟩ | ⟨more, -, heq⟩
    · exact absurd hlast (by decide)
    · exact (of_unbroken h).newline before more heq
  ended before c back heq hc htop := by
    rcases split_concat heq with ⟨-, -, hback⟩ | ⟨more, -, heq⟩
    · exact hback
    · refine absurd (Or.inr ⟨htop, ?_⟩) (h before c more heq)
      exact hc.imp_right Or.inl
  closing before back heq htop := by
    rcases split_concat heq with ⟨-, rfl, -⟩ | ⟨more, -, heq⟩
    · exact absurd hlast (by decide)
    · exact absurd (Or.inr ⟨htop, Or.inr (Or.inr rfl)⟩) (h before '}' more heq)

theorem brace (cursor : Cursor) : Isolated cursor ['}'] where
  newline before back heq := by
    obtain ⟨-, hc, -⟩ := split_single heq
    exact absurd hc (by decide)
  ended before c back heq hc htop := (split_single heq).2.2
  closing before back heq htop := by
    obtain ⟨hfront, -, hback⟩ := split_single heq
    exact ⟨hfront, hback⟩

/-- A part of a line is isolated where it stands. -/
theorem part {gap line behind : List Char} (h : Isolated cursor (gap ++ line ++ behind)) :
    Isolated (cursor.after gap) line := by
  have hsplit : ∀ {front : List Char} {c : Char} {back : List Char}, line = front ++ c :: back →
      gap ++ line ++ behind = (gap ++ front) ++ c :: (back ++ behind) := by
    rintro front c back rfl
    simp
  constructor
  · intro front back heq
    rw [← Cursor.after_append]
    exact h.newline _ _ (hsplit heq)
  · intro front c back heq hc htop
    rw [← Cursor.after_append] at htop
    exact (List.append_eq_nil_iff.mp (h.ended _ c _ (hsplit heq) hc htop)).1
  · intro front back heq htop
    rw [← Cursor.after_append] at htop
    obtain ⟨hfront, hback⟩ := h.closing _ _ (hsplit heq) htop
    exact ⟨(List.append_eq_nil_iff.mp hfront).2, (List.append_eq_nil_iff.mp hback).1⟩

end Isolated

/-! ### The lines of pieces -/

/-- The lines that pieces of a text come to. -/
def trimmedLines (pieces : List (List Char)) : List (List Char) :=
  (pieces.map trim).filter (!·.isEmpty)

namespace Placed

variable {cursor : Cursor} {text : List Char} {lines : List (List Char)}

/-- Blanks in front of a text are no part of a line. -/
theorem behind_gap {gap : List Char} (hgap : ∀ c ∈ gap, isBlank c = true)
    (h : Placed (cursor.after gap) lines text) : Placed cursor lines (gap ++ text) := by
  cases h with
  | nil hblank =>
      refine nil fun c hc => ?_
      rcases List.mem_append.mp hc with hmem | hmem
      · exact hgap c hmem
      · exact hblank c hmem
  | @cons _ space line text lines hspace htrim hline rest =>
      rw [← Cursor.after_append] at hline rest
      rw [← List.append_assoc] at rest ⊢
      refine cons (fun c hc => ?_) htrim hline rest
      rcases List.mem_append.mp hc with hmem | hmem
      · exact hgap c hmem
      · exact hspace c hmem

/-- A piece comes to the line between its blanks, or to none. -/
theorem piece {pieces : List (List Char)} {piece : List Char} (hpiece : Isolated cursor piece)
    (h : Placed (cursor.after piece) (trimmedLines pieces) text) :
    Placed cursor (trimmedLines (piece :: pieces)) (piece ++ text) := by
  obtain ⟨before, behind, hsplit, hbefore, hbehind⟩ := Text.exists_trim piece
  have hlast : Placed (cursor.after (before ++ trim piece)) (trimmedLines pieces)
      (behind ++ text) := by
    apply behind_gap hbehind
    rwa [← Cursor.after_append, ← hsplit]
  have hassoc : piece ++ text = before ++ (trim piece ++ (behind ++ text)) := by
    rw [← List.append_assoc before, ← List.append_assoc, ← hsplit]
  rw [hassoc, trimmedLines, List.map_cons, List.filter_cons]
  by_cases hempty : trim piece = []
  · rw [hempty, List.append_nil] at hlast
    rw [hempty, List.nil_append]
    exact behind_gap hbefore hlast
  · have hkept : (!(trim piece).isEmpty) = true := by simpa using hempty
    rw [if_pos hkept]
    apply cons hbefore (Text.trimmed_trim hempty) _ hlast
    rw [hsplit] at hpiece
    exact hpiece.part

end Placed

/-- The pieces of a text are placed in it. `front` is the part of the first piece that the scan has
passed already. -/
theorem placed_joinHead {cursor : Cursor} {front : List Char} (h : Unbroken cursor front)
    (text : List Char) :
    Placed cursor (trimmedLines (joinHead front (linePieces (cursor.after front) text)))
      (front ++ text) := by
  induction text generalizing cursor front with
  | nil =>
      rw [linePieces, joinHead_cons, List.append_nil]
      have hend : Placed (cursor.after front) (trimmedLines []) [] :=
        Placed.nil (List.forall_mem_nil _)
      have hplaced := hend.piece (Isolated.of_unbroken h)
      rwa [List.append_nil] at hplaced
  | cons c rest ih =>
      -- the scan behind a character that ends a line
      have hrest : (cursor.after front).step c = cursor.after front →
          Placed ((cursor.after front).step c)
            (trimmedLines (linePieces (cursor.after front) rest)) rest := by
        intro hstep
        rw [hstep]
        exact ih (Unbroken.nil _)
      rw [linePieces]
      split
      · rename_i hc
        obtain ⟨houtside, rfl⟩ := hc
        have hstep := Cursor.step_of_breaks (Or.inl ⟨houtside, rfl⟩)
        rw [joinHead_cons, List.append_nil]
        apply Placed.piece (Isolated.of_unbroken h)
        have hgap : ∀ c ∈ ['\n'], isBlank c = true := by decide
        exact Placed.behind_gap hgap (hrest hstep)
      · rename_i hnewline
        split
        · rename_i hc
          obtain ⟨htop, rfl⟩ := hc
          have hstep := Cursor.step_of_breaks (Or.inr ⟨htop, Or.inr (Or.inr rfl)⟩)
          rw [joinHead_cons, List.append_nil]
          apply Placed.piece (Isolated.of_unbroken h)
          exact Placed.piece (Isolated.brace _) (hrest hstep)
        · rename_i hclose
          split
          · rename_i hc
            obtain ⟨htop, hc⟩ := hc
            have hstep := Cursor.step_of_breaks (Or.inr ⟨htop, hc.imp_right Or.inl⟩)
            have hplaced := hrest hstep
            rw [← Cursor.after_concat] at hplaced
            rw [joinHead_cons, List.append_cons front c rest]
            exact hplaced.piece (Isolated.concat h hc)
          · rename_i hend
            have hunbroken : Unbroken cursor (front ++ [c]) := by
              intro before d back heq hbreaks
              rcases split_concat heq with ⟨rfl, rfl, -⟩ | ⟨more, -, heq⟩
              · rcases hbreaks with hline | ⟨htop, hd⟩
                · exact hnewline hline
                · rcases hd with hd | hd | hd
                  · exact hend ⟨htop, Or.inl hd⟩
                  · exact hend ⟨htop, Or.inr hd⟩
                  · exact hclose ⟨htop, hd⟩
              · exact h before d more heq hbreaks
            have hplaced := ih hunbroken
            rw [Cursor.after_concat, joinHead, List.foldr_append, List.append_assoc] at hplaced
            exact hplaced

/-! ### The main statement -/

/-- What is left of a text without its blanks. -/
def inked (text : List Char) : List Char :=
  text.filter (!isBlank ·)

theorem inked_append (front back : List Char) : inked (front ++ back) = inked front ++ inked back :=
  List.filter_append front back

theorem inked_blanks {blank : List Char} (h : ∀ c ∈ blank, isBlank c = true) :
    inked blank = [] := by
  rw [inked, List.filter_eq_nil_iff]
  intro c hc
  rw [h c hc]
  decide

/-- Between placed lines nothing but blanks is lost. -/
theorem Placed.inked_flatten {cursor : Cursor} {lines : List (List Char)} {text : List Char}
    (h : Placed cursor lines text) : inked lines.flatten = inked text := by
  induction h with
  | nil hblank => rw [inked_blanks hblank, List.flatten_nil, inked, List.filter_nil]
  | cons hgap htrim hline rest ih =>
      rw [List.flatten_cons, inked_append, inked_append, inked_append, inked_blanks hgap, ih,
        List.nil_append]

theorem Placed.trimmed {cursor : Cursor} {lines : List (List Char)} {text : List Char}
    (h : Placed cursor lines text) : ∀ line ∈ lines, Trimmed line := by
  induction h with
  | nil hblank => exact List.forall_mem_nil _
  | cons hgap htrim hline rest ih => exact List.forall_mem_cons.mpr ⟨htrim, ih⟩

/-- The logical lines of a text keep all its characters but blanks, in their order. Each is trimmed
and not empty, and stands isolated at its place in the text. -/
theorem splitLines_placed (text : List Char) :
    inked (splitLines text).flatten = inked text ∧
      (∀ line ∈ splitLines text, Trimmed line) ∧ Placed {} (splitLines text) text := by
  have hplaced : Placed {} (splitLines text) text := placed_joinHead (Unbroken.nil {}) text
  exact ⟨hplaced.inked_flatten, hplaced.trimmed, hplaced⟩

end ToyC.Source
