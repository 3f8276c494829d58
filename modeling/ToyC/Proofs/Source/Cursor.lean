import ToyC.Proofs.Source.Placement

/-!
The states that a scan can be in. What is open is a literal with a quote, and an escape
is pending only inside it, so a cursor at the top is the one that a scan starts with.
Blanks neither open nor close anything: trimming a piece of text outside literals does
not change where the scan stands behind it.
-/

namespace ToyC.Source

open Text (isBlank)

/-- A blank is none of the characters that a scan looks for. -/
theorem ne_of_isBlank {c d : Char} (hc : isBlank c = true) (hd : isBlank d = false) : c ≠ d := by
  rintro rfl
  rw [hd] at hc
  cases hc

theorem not_isQuote_of_isBlank {c : Char} (h : isBlank c = true) : isQuote c = false := by
  have hdouble : c ≠ '"' := ne_of_isBlank h (by decide)
  have hsingle : c ≠ '\'' := ne_of_isBlank h (by decide)
  simp [isQuote, hdouble, hsingle]

namespace Cursor

variable {cursor : Cursor}

theorem outside_iff : cursor.outside = true ↔ cursor.quote = none :=
  Option.isNone_iff_eq_none

theorem top_iff : cursor.top = true ↔ cursor.outside = true ∧ cursor.depth = 0 := by
  rw [top, Bool.and_eq_true, beq_iff_eq]

/-- A state that a scan can be in. -/
structure Sound (cursor : Cursor) : Prop where
  quoted : ∀ quote ∈ cursor.quote, isQuote quote = true
  unescaped : cursor.outside = true → cursor.escaped = false

/-- Inside a literal the state says nothing of the outside. -/
theorem Sound.inside {quote : Char} (h : isQuote quote = true) (escaped : Bool) (depth : Nat) :
    Sound { quote := some quote, escaped, depth } := by
  constructor
  · intro other hmem
    cases hmem
    exact h
  · intro houtside
    cases houtside

/-- Outside literals no escape is pending, at whatever depth. -/
theorem Sound.between (depth : Nat) : Sound { depth } := by
  constructor
  · intro quote hmem
    cases hmem
  · intro _
    rfl

theorem Sound.start : Sound {} := Sound.between 0

theorem Sound.step (h : cursor.Sound) (c : Char) : (cursor.step c).Sound := by
  obtain ⟨quote, escaped, depth⟩ := cursor
  cases quote with
  | none =>
      obtain rfl : escaped = false := h.unescaped rfl
      simp only [Cursor.step]
      split
      · rename_i hquote
        exact Sound.inside hquote false depth
      · split
        · exact Sound.between (depth + 1)
        · split
          · exact Sound.between (depth - 1)
          · exact Sound.between depth
  | some quote =>
      have hquote : isQuote quote = true := h.quoted quote rfl
      simp only [Cursor.step]
      split
      · exact Sound.inside hquote false depth
      · rename_i hescaped
        obtain rfl : escaped = false := by simpa using hescaped
        split
        · exact Sound.inside hquote true depth
        · split
          · exact Sound.between depth
          · exact Sound.inside hquote false depth

theorem Sound.after (h : cursor.Sound) (text : List Char) : (cursor.after text).Sound := by
  induction text generalizing cursor with
  | nil => exact h
  | cons c rest ih => exact ih (h.step c)

/-- At the top there is only the state that a scan starts in. -/
theorem Sound.eq_start (h : cursor.Sound) (htop : cursor.top = true) : cursor = {} := by
  obtain ⟨houtside, hdepth⟩ := top_iff.mp htop
  obtain ⟨quote, escaped, depth⟩ := cursor
  obtain rfl : quote = none := outside_iff.mp houtside
  obtain rfl : escaped = false := h.unescaped houtside
  obtain rfl : depth = 0 := hdepth
  rfl

/-! ### Blanks -/

theorem step_blank (houtside : cursor.outside = true) {c : Char} (h : isBlank c = true) :
    cursor.step c = cursor :=
  step_outside houtside (not_isQuote_of_isBlank h) (ne_of_isBlank h (by decide))
    (ne_of_isBlank h (by decide))

theorem after_blanks (houtside : cursor.outside = true) {blank : List Char}
    (h : ∀ c ∈ blank, isBlank c = true) : cursor.after blank = cursor := by
  induction blank with
  | nil => rfl
  | cons c blank ih =>
      obtain ⟨hc, hblank⟩ := List.forall_mem_cons.mp h
      rw [after, List.foldl_cons, step_blank houtside hc]
      exact ih hblank

/-- No blank closes a literal. -/
theorem Sound.outside_step_blank (hsound : cursor.Sound) {c : Char} (h : isBlank c = true) :
    (cursor.step c).outside = cursor.outside := by
  obtain ⟨quote, escaped, depth⟩ := cursor
  cases quote with
  | none => rw [step_blank rfl h]
  | some quote =>
      have hne : c ≠ quote := by
        rintro rfl
        have hnot := not_isQuote_of_isBlank h
        rw [hsound.quoted c rfl] at hnot
        cases hnot
      simp only [Cursor.step, if_neg hne]
      split
      · rfl
      · split
        · rfl
        · rfl

theorem Sound.outside_after_blanks (hsound : cursor.Sound) {blank : List Char}
    (h : ∀ c ∈ blank, isBlank c = true) : (cursor.after blank).outside = cursor.outside := by
  induction blank generalizing cursor with
  | nil => rfl
  | cons c blank ih =>
      obtain ⟨hc, hblank⟩ := List.forall_mem_cons.mp h
      rw [← hsound.outside_step_blank hc]
      exact ih (hsound.step c) hblank

/-- Where a text and the blanks around it end outside literals, the blanks play no part. -/
theorem Sound.after_padded (hsound : cursor.Sound) (houtside : cursor.outside = true)
    {before text behind : List Char} (hbefore : ∀ c ∈ before, isBlank c = true)
    (hbehind : ∀ c ∈ behind, isBlank c = true)
    (hend : (cursor.after (before ++ text ++ behind)).outside = true) :
    cursor.after (before ++ text ++ behind) = cursor.after text := by
  have hfront : cursor.after (before ++ text) = cursor.after text := by
    rw [after_append, after_blanks houtside hbefore]
  rw [after_append, hfront] at hend ⊢
  rw [(hsound.after text).outside_after_blanks hbehind] at hend
  exact after_blanks hend hbehind

end Cursor

/-! ### Characters that a scan meets -/

/-- A text in which a scan from the cursor on meets no character of a kind. -/
def Nowhere (kind : Cursor → Char → Prop) (cursor : Cursor) (text : List Char) : Prop :=
  ∀ front c back, text = front ++ c :: back → ¬kind (cursor.after front) c

namespace Nowhere

variable {kind : Cursor → Char → Prop} {cursor : Cursor}

theorem nil (kind : Cursor → Char → Prop) (cursor : Cursor) : Nowhere kind cursor [] := by
  intro front c back h
  simp at h

theorem head {c : Char} {rest : List Char} (h : Nowhere kind cursor (c :: rest)) :
    ¬kind cursor c :=
  h [] c rest rfl

theorem tail {c : Char} {rest : List Char} (h : Nowhere kind cursor (c :: rest)) :
    Nowhere kind (cursor.step c) rest := by
  rintro front d back rfl
  exact h (c :: front) d back rfl

theorem concat {front : List Char} (h : Nowhere kind cursor front) {c : Char}
    (hc : ¬kind (cursor.after front) c) : Nowhere kind cursor (front ++ [c]) := by
  intro before d behind heq
  rcases split_concat heq with ⟨rfl, rfl, -⟩ | ⟨more, -, heq⟩
  · exact hc
  · exact h before d more heq

/-- A part of a text is scanned from where it stands. -/
theorem part {before text behind : List Char} (h : Nowhere kind cursor (before ++ text ++ behind)) :
    Nowhere kind (cursor.after before) text := by
  rintro front c back rfl
  rw [← Cursor.after_append]
  exact h (before ++ front) c (back ++ behind) (by simp)

end Nowhere

end ToyC.Source
