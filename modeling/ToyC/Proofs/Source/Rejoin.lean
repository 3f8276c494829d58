import ToyC.Proofs.Source.Cursor
import ToyC.Proofs.Source.Division
import ToyC.Syntax.Program

/-!
Logical lines put together again. Whatever blanks with a newline among them are put
between the lines of a text, the text that comes about has the same lines, since at
the end of every line but the last the scan stands outside literals, with as many
parentheses open as before. So a program may be laid out anew without a change.
-/

namespace ToyC.Source

open Text (isBlank trim Trimmed consHead)

variable {cursor : Cursor} {front line : List Char}

/-! ### One character of the scan -/

theorem linePieces_newline (houtside : cursor.outside = true) (rest : List Char) :
    linePieces cursor ('\n' :: rest) = [] :: linePieces cursor rest := by
  rw [linePieces, if_pos ⟨houtside, rfl⟩]

theorem linePieces_closing (htop : cursor.top = true) (rest : List Char) :
    linePieces cursor ('}' :: rest) = [] :: ['}'] :: linePieces cursor rest := by
  have hnewline : ¬(cursor.outside = true ∧ '}' = '\n') := fun h => absurd h.2 (by decide)
  rw [linePieces, if_neg hnewline, if_pos ⟨htop, rfl⟩]

theorem linePieces_ended (htop : cursor.top = true) {c : Char} (hc : c = ';' ∨ c = '{')
    (rest : List Char) : linePieces cursor (c :: rest) = [c] :: linePieces cursor rest := by
  have hother : c ≠ '\n' ∧ c ≠ '}' := by
    rcases hc with rfl | rfl <;> decide
  rw [linePieces, if_neg fun h => hother.1 h.2, if_neg fun h => hother.2 h.2, if_pos ⟨htop, hc⟩]

theorem linePieces_unbroken_cons {c : Char} (h : ¬cursor.Breaks c) (rest : List Char) :
    linePieces cursor (c :: rest) = consHead c (linePieces (cursor.step c) rest) := by
  rw [Cursor.Breaks, not_or] at h
  have hclose : ¬(cursor.top = true ∧ c = '}') := fun hc => h.2 ⟨hc.1, Or.inr (Or.inr hc.2)⟩
  have hend : ¬(cursor.top = true ∧ (c = ';' ∨ c = '{')) := fun hc =>
    h.2 ⟨hc.1, hc.2.imp_right Or.inl⟩
  rw [linePieces, if_neg h.1, if_neg hclose, if_neg hend]

theorem Unbroken.nowhere (h : Unbroken cursor front) : Nowhere Cursor.Breaks cursor front := h

/-- A text that no line ends in is the front of one piece. -/
theorem linePieces_unbroken (h : Unbroken cursor front) (rest : List Char) :
    linePieces cursor (front ++ rest) = joinHead front (linePieces (cursor.after front) rest) := by
  induction front generalizing cursor with
  | nil => rfl
  | cons c front ih =>
      rw [List.cons_append, linePieces_unbroken_cons h.nowhere.head, ih h.nowhere.tail]
      rfl

/-! ### Lines of their own -/

/-- Lines that a scan passes one behind the other: each holds one statement at most where it stands,
and all but the last end outside literals. -/
inductive Ruled : Cursor → List (List Char) → Prop
  | nil (cursor : Cursor) : Ruled cursor []
  | last {cursor : Cursor} {line : List Char} (hline : Isolated cursor line) : Ruled cursor [line]
  | cons {cursor : Cursor} {line : List Char} {lines : List (List Char)}
      (hline : Isolated cursor line) (houtside : (cursor.after line).outside = true)
      (rest : Ruled (cursor.after line) lines) : Ruled cursor (line :: lines)

/-- The pieces of a text are lines of their own. `front` is the part of the first piece that the
scan has passed already. -/
theorem ruled_joinHead (h : Unbroken cursor front) (text : List Char) :
    Ruled cursor (joinHead front (linePieces (cursor.after front) text)) := by
  induction text generalizing cursor front with
  | nil =>
      rw [linePieces, joinHead_cons, List.append_nil]
      exact Ruled.last (Isolated.of_unbroken h)
  | cons c rest ih =>
      have hrest : Ruled (cursor.after front) (linePieces (cursor.after front) rest) :=
        ih (Unbroken.nil _)
      by_cases hc : (cursor.after front).Breaks c
      · have hstep := Cursor.step_of_breaks hc
        rcases hc with ⟨houtside, rfl⟩ | ⟨htop, hc⟩
        · rw [linePieces_newline houtside, joinHead_cons, List.append_nil]
          exact Ruled.cons (Isolated.of_unbroken h) houtside hrest
        · have houtside := Cursor.outside_of_top htop
          rw [← or_assoc] at hc
          rcases hc with hc | rfl
          · have hafter : cursor.after (front ++ [c]) = cursor.after front := by
              rw [Cursor.after_concat, hstep]
            rw [linePieces_ended htop hc, joinHead_cons]
            apply Ruled.cons (Isolated.concat h hc)
            · rwa [hafter]
            · rwa [hafter]
          · rw [linePieces_closing htop, joinHead_cons, List.append_nil]
            have hbrace : (cursor.after front).after ['}'] = cursor.after front := hstep
            apply Ruled.cons (Isolated.of_unbroken h) houtside
            apply Ruled.cons (Isolated.brace _)
            · rwa [hbrace]
            · rwa [hbrace]
      · rw [linePieces_unbroken_cons hc, ← Cursor.after_concat]
        have hmore := ih (h.nowhere.concat hc)
        rwa [joinHead, List.foldr_append] at hmore

theorem trimmedLines_cons {piece : List Char} (hpiece : trim piece = line) (hne : line ≠ [])
    (pieces : List (List Char)) :
    trimmedLines (piece :: pieces) = line :: trimmedLines pieces := by
  rw [trimmedLines, List.map_cons, hpiece, List.filter_cons_of_pos (by simpa using hne)]
  rfl

theorem trimmedLines_cons_blank {piece : List Char} (h : trim piece = [])
    (pieces : List (List Char)) : trimmedLines (piece :: pieces) = trimmedLines pieces := by
  rw [trimmedLines, List.map_cons, List.filter_cons_of_neg (by simpa using h)]
  rfl

theorem Isolated.trim (houtside : cursor.outside = true) (h : Isolated cursor line) :
    Isolated cursor (trim line) := by
  obtain ⟨before, behind, hsplit, hbefore, -⟩ := Text.exists_trim line
  rw [hsplit] at h
  have hpart := h.part
  rwa [Cursor.after_blanks houtside hbefore] at hpart

/-- Trimming changes nothing about where lines stand. -/
theorem Ruled.trimmed {pieces : List (List Char)} (h : Ruled cursor pieces)
    (hsound : cursor.Sound) (houtside : cursor.outside = true) :
    Ruled cursor (trimmedLines pieces) := by
  induction h with
  | nil cursor => exact Ruled.nil cursor
  | @last cursor piece hpiece =>
      by_cases hblank : Text.trim piece = []
      · rw [trimmedLines_cons_blank hblank]
        exact Ruled.nil cursor
      · rw [trimmedLines_cons rfl hblank]
        exact Ruled.last (hpiece.trim houtside)
  | @cons cursor piece pieces hpiece hend rest ih =>
      have hrest := ih (hsound.after piece) hend
      obtain ⟨before, behind, hsplit, hbefore, hbehind⟩ := Text.exists_trim piece
      have hafter : cursor.after piece = cursor.after (Text.trim piece) := by
        rw [hsplit] at hend
        rw [← hsound.after_padded houtside hbefore hbehind hend, ← hsplit]
      rw [hafter] at hend hrest
      by_cases hblank : Text.trim piece = []
      · rw [hblank] at hrest
        rw [trimmedLines_cons_blank hblank]
        exact hrest
      · rw [trimmedLines_cons rfl hblank]
        exact Ruled.cons (hpiece.trim houtside) hend hrest

/-- The logical lines of a text are lines of their own. -/
theorem splitLines_ruled (text : List Char) : Ruled {} (splitLines text) := by
  have hpieces : Ruled {} (linePieces {} text) := ruled_joinHead (Unbroken.nil {}) text
  exact hpieces.trimmed Cursor.Sound.start rfl

/-! ### Lines between breaks -/

/-- What may stand between two lines: blanks, and a newline among them. -/
structure LineBreak where
  text : List Char
  blank : ∀ c ∈ text, isBlank c = true
  newline : '\n' ∈ text

/-- Lines with breaks between them. The breaks are numbered from the first on. -/
def joinLines (breaks : Nat → LineBreak) : List (List Char) → List Char
  | [] => []
  | [line] => line
  | line :: next :: lines =>
    line ++ ((breaks 0).text ++ joinLines (fun i => breaks (i + 1)) (next :: lines))

/-- Of the blanks only a newline ends a line. -/
theorem Cursor.Breaks.eq_newline {c : Char} (h : cursor.Breaks c) (hblank : isBlank c = true) :
    c = '\n' := by
  rcases h with ⟨-, hline⟩ | ⟨-, rfl | rfl | rfl⟩
  · exact hline
  all_goals exact absurd hblank (by decide)

/-- Blanks in front of a text are no part of a line. -/
theorem lines_blanks (houtside : cursor.outside = true) {blank : List Char}
    (h : ∀ c ∈ blank, isBlank c = true) (text : List Char) :
    trimmedLines (linePieces cursor (blank ++ text)) = trimmedLines (linePieces cursor text) := by
  induction blank with
  | nil => rfl
  | cons c blank ih =>
      obtain ⟨hc, hblank⟩ := List.forall_mem_cons.mp h
      rw [← ih hblank, List.cons_append]
      by_cases hbreaks : cursor.Breaks c
      · obtain rfl := hbreaks.eq_newline hc
        rw [linePieces_newline houtside, trimmedLines_cons_blank rfl]
      · obtain ⟨piece, pieces, hpieces⟩ :=
          List.exists_cons_of_ne_nil (linePieces_ne_nil cursor (blank ++ text))
        have htrim : Text.trim (c :: piece) = Text.trim piece := by
          rw [Text.trim, Text.trim, Text.skipBlanks, List.dropWhile_cons, if_pos hc]
          rfl
        rw [linePieces_unbroken_cons hbreaks, Cursor.step_blank houtside hc, hpieces, consHead,
          trimmedLines, trimmedLines, List.map_cons, List.map_cons, htrim]

/-- A line goes to its end at a break. -/
theorem Isolated.at_break (h : Isolated cursor line) {c : Char} {back : List Char}
    (heq : line = front ++ c :: back) (hc : (cursor.after front).Breaks c) :
    back = [] ∧ (cursor.after front).top = true ∧ ((c = ';' ∨ c = '{') ∨ c = '}' ∧ front = []) := by
  rcases hc with ⟨houtside, rfl⟩ | ⟨htop, hc⟩
  · rw [h.newline front back heq] at houtside
    cases houtside
  · rw [← or_assoc] at hc
    rcases hc with hc | rfl
    · exact ⟨h.ended front c back heq hc htop, htop, Or.inl hc⟩
    · obtain ⟨hfront, hback⟩ := h.closing front back heq htop
      exact ⟨hback, htop, Or.inr ⟨rfl, hfront⟩⟩

/-- A line is unbroken, or is so up to its last character, or is a closing brace. -/
theorem Isolated.shape (h : Isolated cursor line) : Unbroken cursor line ∨
    (∃ front c, line = front ++ [c] ∧ (c = ';' ∨ c = '{') ∧ Unbroken cursor front ∧
      (cursor.after front).top = true) ∨ line = ['}'] ∧ cursor.top = true := by
  by_cases hbreak : ∃ front c back, line = front ++ c :: back ∧ (cursor.after front).Breaks c
  · obtain ⟨front, c, back, heq, hbreaks⟩ := hbreak
    obtain ⟨rfl, htop, hc⟩ := h.at_break heq hbreaks
    rcases hc with hc | ⟨rfl, rfl⟩
    · refine Or.inr (Or.inl ⟨front, c, heq, hc, ?_, htop⟩)
      rintro before d behind rfl hd
      -- a break before the last character would have nothing behind it
      have hmore : line = before ++ d :: (behind ++ [c]) := by simpa using heq
      simpa using (h.at_break hmore hd).1
    · exact Or.inr (Or.inr ⟨heq, htop⟩)
  · exact Or.inl fun front c back heq hc => hbreak ⟨front, c, back, heq, hc⟩

/-- A line is found in front of a text if it is found there as an unbroken piece. -/
theorem Isolated.lines_append (h : Isolated cursor line) (htrim : Trimmed line) {rest : List Char}
    (hrest : trimmedLines (joinHead line (linePieces (cursor.after line) rest)) =
      line :: trimmedLines (linePieces (cursor.after line) rest)) :
    trimmedLines (linePieces cursor (line ++ rest)) =
      line :: trimmedLines (linePieces (cursor.after line) rest) := by
  rcases h.shape with hunbroken | ⟨front, c, rfl, hc, hunbroken, htop⟩ | ⟨rfl, htop⟩
  · rw [linePieces_unbroken hunbroken, hrest]
  · have hstep := Cursor.step_of_breaks (Or.inr ⟨htop, hc.elim Or.inl (Or.inr ∘ Or.inl)⟩)
    rw [Cursor.after_concat, hstep, List.append_assoc, linePieces_unbroken hunbroken,
      List.singleton_append, linePieces_ended htop hc, joinHead_cons,
      trimmedLines_cons htrim.trim_eq htrim.ne_nil]
  · have hstep : cursor.after ['}'] = cursor :=
      Cursor.step_of_breaks (Or.inr ⟨htop, Or.inr (Or.inr rfl)⟩)
    rw [hstep, List.singleton_append, linePieces_closing htop, trimmedLines_cons_blank rfl,
      trimmedLines_cons htrim.trim_eq htrim.ne_nil]

theorem Isolated.lines_self (h : Isolated cursor line) (htrim : Trimmed line) :
    trimmedLines (linePieces cursor line) = [line] := by
  have hend : trimmedLines (linePieces (cursor.after line) []) = [] := rfl
  have hfound := @Isolated.lines_append cursor line h htrim []
  rw [hend, linePieces, joinHead_cons, List.append_nil,
    trimmedLines_cons htrim.trim_eq htrim.ne_nil] at hfound
  exact hfound rfl

/-- Behind a trimmed piece that ends outside literals, a break leaves only the piece. -/
theorem lines_break (houtside : cursor.outside = true) (htrim : Trimmed line) (gap : LineBreak)
    (text : List Char) : trimmedLines (joinHead line (linePieces cursor (gap.text ++ text))) =
      line :: trimmedLines (linePieces cursor (gap.text ++ text)) := by
  obtain ⟨before, behind, hsplit, hbefore⟩ := List.eq_append_cons_of_mem gap.newline
  have hblank : ∀ c ∈ before, isBlank c = true := by
    intro c hc
    apply gap.blank
    rw [hsplit]
    exact List.mem_append_left _ hc
  have hunbroken : Unbroken cursor before := by
    rintro front c back rfl hc
    have hmem : c ∈ front ++ c :: back := List.mem_append_right _ List.mem_cons_self
    obtain rfl := hc.eq_newline (hblank c hmem)
    exact hbefore hmem
  have hpieces : linePieces cursor (gap.text ++ text) =
      before :: linePieces cursor (behind ++ text) := by
    rw [hsplit, List.append_assoc, linePieces_unbroken hunbroken,
      Cursor.after_blanks houtside hblank, List.cons_append, linePieces_newline houtside,
      joinHead_cons, List.append_nil]
  have hline : Text.trim (line ++ before) = line := by
    have htrimmed := htrim.trim_append (List.forall_mem_nil _) hblank
    rwa [List.nil_append] at htrimmed
  rw [hpieces, joinHead_cons, trimmedLines_cons hline htrim.ne_nil,
    trimmedLines_cons_blank (Text.trim_blanks hblank)]

/-- Lines of their own with breaks between them are found again. -/
theorem Ruled.lines_joinLines {lines : List (List Char)} (h : Ruled cursor lines)
    (htrim : ∀ line ∈ lines, Trimmed line) (breaks : Nat → LineBreak) :
    trimmedLines (linePieces cursor (joinLines breaks lines)) = lines := by
  induction h generalizing breaks with
  | nil cursor => rfl
  | last hline => exact hline.lines_self (htrim _ List.mem_cons_self)
  | @cons cursor line lines hline houtside rest ih =>
      obtain ⟨htrimmed, hothers⟩ := List.forall_mem_cons.mp htrim
      cases lines with
      | nil => exact hline.lines_self htrimmed
      | cons next lines =>
          rw [joinLines, hline.lines_append htrimmed (lines_break houtside htrimmed _ _),
            lines_blanks houtside (breaks 0).blank, ih hothers]

/-- A text and the text of its lines with breaks between them have the same lines, and write the
same program. -/
theorem splitLines_joinLines (breaks : Nat → LineBreak) (text : List Char) :
    splitLines (joinLines breaks (splitLines text)) = splitLines text ∧
      Program.read (joinLines breaks (splitLines text)) = Program.read text := by
  have hplaced : Placed {} (splitLines text) text := placed_joinHead (Unbroken.nil {}) text
  have hlines : splitLines (joinLines breaks (splitLines text)) = splitLines text :=
    (splitLines_ruled text).lines_joinLines hplaced.trimmed breaks
  exact ⟨hlines, by rw [Program.read, Program.read, hlines]⟩

end ToyC.Source
