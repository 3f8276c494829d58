import Mathlib.Data.List.Infix
import ToyC.Proofs.Text
import ToyC.Source.Comment

/-!
What is left of a text once its comments have been removed. The pass over line
comments leaves no two slashes side by side. In such a text no slash stands before
the opening of a block comment or behind its end, so the pass over block comments
brings no new mark together. Nothing that is left can be taken for a comment, and a
text that has been preprocessed stays as it is.
-/

namespace ToyC.Source

open Text (trim trim_isInfix trim_trim)

/-- Nothing in a text can be taken for a comment: it has neither two slashes side by side nor the
opening of a block comment with an end behind it. -/
structure Plain (text : List Char) : Prop where
  lines : ¬ ['/', '/'] <:+: text
  blocks (inside : List Char) : ¬ '/' :: '*' :: (inside ++ ['*', '/']) <:+: text

theorem Plain.of_isInfix {text part : List Char} (h : Plain text) (hpart : part <:+: text) :
    Plain part :=
  ⟨fun hline => h.lines (hline.trans hpart), fun inside hblock =>
    h.blocks inside (hblock.trans hpart)⟩

theorem pair_infix_cons_iff {a b c : Char} {rest : List Char} :
    [a, b] <:+: c :: rest ↔ (c = a ∧ rest.head? = some b) ∨ [a, b] <:+: rest := by
  rw [List.infix_cons_iff, List.cons_prefix_cons]
  cases rest with
  | nil => simp
  | cons d rest => simp [List.cons_prefix_cons, eq_comm]

theorem not_front_pair {a b c : Char} {rest : List Char}
    (h : ∀ more, c = a → rest = b :: more → False) : ¬ (c = a ∧ rest.head? = some b) := by
  rintro ⟨hc, hhead⟩
  obtain ⟨more, hmore⟩ := List.head?_eq_some_iff.mp hhead
  exact h more hc hmore

/-! ### The pass over line comments -/

/-- A slash at the front of what is left was at the front before. So the slashes that are left are
not side by side. -/
theorem dropLineComments_go_lines (inside : Bool) (text : List Char) :
    ¬ ['/', '/'] <:+: dropLineComments.go inside text ∧
      ((dropLineComments.go inside text).head? = some '/' →
        inside = false ∧ text.head? = some '/') := by
  fun_induction dropLineComments.go inside text with
  | case1 => simp
  | case2 rest ih => simpa [pair_infix_cons_iff] using ih.1
  | case3 c rest hline ih => exact ⟨ih.1, fun hhead => absurd (ih.2 hhead).1 (by decide)⟩
  | case4 rest ih => exact ⟨ih.1, fun _ => ⟨rfl, rfl⟩⟩
  | case5 c rest hslash ih =>
      refine ⟨?_, fun hhead => ⟨rfl, hhead⟩⟩
      rw [pair_infix_cons_iff]
      rintro (⟨hc, hhead⟩ | hrest)
      · exact not_front_pair hslash ⟨hc, (ih.2 hhead).2⟩
      · exact ih.1 hrest

theorem dropLineComments_lines (text : List Char) : ¬ ['/', '/'] <:+: dropLineComments text :=
  (dropLineComments_go_lines false text).1

theorem dropLineComments_cons {c : Char} {rest : List Char}
    (h : ¬ (c = '/' ∧ rest.head? = some '/')) :
    dropLineComments (c :: rest) = c :: dropLineComments rest := by
  rw [dropLineComments, dropLineComments.go]
  · rfl
  · rintro behind rfl rfl
    exact h ⟨rfl, rfl⟩

theorem dropLineComments_eq_self {text : List Char} (h : ¬ ['/', '/'] <:+: text) :
    dropLineComments text = text := by
  induction text with
  | nil => rfl
  | cons c rest ih =>
      rw [pair_infix_cons_iff, not_or] at h
      rw [dropLineComments_cons h.1, ih h.2]

theorem dropLineComments_go_true (text : List Char) :
    dropLineComments.go true text = dropLineComments (text.dropWhile (· ≠ '\n')) := by
  induction text with
  | nil => rfl
  | cons c rest ih =>
      by_cases hline : c = '\n'
      · simp [dropLineComments, dropLineComments.go, hline]
      · simp [dropLineComments.go, hline, ih]

theorem head?_dropLineComments {text : List Char} (h : text.head? ≠ some '/') :
    (dropLineComments text).head? = text.head? := by
  cases text with
  | nil => rfl
  | cons c rest =>
      rw [dropLineComments_cons fun hopen => h (congrArg some hopen.1)]
      rfl

/-- No end of a block comment comes together where line comments are taken out. -/
theorem dropLineComments_go_endless {inside : Bool} {text : List Char}
    (h : ¬ ['*', '/'] <:+: text) : ¬ ['*', '/'] <:+: dropLineComments.go inside text := by
  fun_induction dropLineComments.go inside text with
  | case1 => exact h
  | case2 rest ih =>
      rw [pair_infix_cons_iff, not_or] at h ⊢
      exact ⟨by simp, ih h.2⟩
  | case3 c rest hline ih => exact ih (not_or.mp (pair_infix_cons_iff.not.mp h)).2
  | case4 rest ih =>
      refine ih fun hrest => h (hrest.trans ?_)
      exact (List.suffix_append ['/', '/'] rest).isInfix
  | case5 c rest hslash ih =>
      rw [pair_infix_cons_iff, not_or] at h ⊢
      refine ⟨?_, ih h.2⟩
      rintro ⟨hc, hhead⟩
      exact h.1 ⟨hc, ((dropLineComments_go_lines false rest).2 hhead).2⟩

/-! ### The pass over block comments -/

/-- The text behind the next end of a block comment. -/
def behindBlock? : List Char → Option (List Char)
  | [] => none
  | '*' :: '/' :: rest => some rest
  | _ :: rest => behindBlock? rest

theorem behindBlock?_suffix {text behind : List Char} (h : behindBlock? text = some behind) :
    '*' :: '/' :: behind <:+ text := by
  fun_induction behindBlock? text with
  | case1 => cases h
  | case2 rest => cases h; exact List.suffix_rfl
  | case3 c rest hend ih => exact (ih h).trans (List.suffix_cons c rest)

theorem behindBlock?_eq_none_iff {text : List Char} :
    behindBlock? text = none ↔ ¬ ['*', '/'] <:+: text := by
  fun_induction behindBlock? text with
  | case1 => simp
  | case2 rest => simp [pair_infix_cons_iff]
  | case3 c rest hend ih =>
      rw [ih, pair_infix_cons_iff, not_or]
      exact ⟨fun hrest => ⟨not_front_pair hend, hrest⟩, fun hrest => hrest.2⟩

theorem behindBlock?_cons {c : Char} {rest : List Char} (h : ¬ (c = '*' ∧ rest.head? = some '/')) :
    behindBlock? (c :: rest) = behindBlock? rest := by
  rw [behindBlock?]
  rintro behind rfl rfl
  exact h ⟨rfl, rfl⟩

/-- A comment that is open ends at its next end, or stays. -/
theorem dropBlockComments_go_some (held text : List Char) :
    dropBlockComments.go (some held) text =
      match behindBlock? text with
      | some behind => dropBlockComments behind
      | none => held.reverse ++ text := by
  fun_induction behindBlock? text generalizing held with
  | case1 => simp [dropBlockComments.go]
  | case2 rest => rfl
  | case3 c rest hend ih =>
      rw [dropBlockComments.go, ih]
      · simp
      · exact hend

theorem dropBlockComments_opened (rest : List Char) :
    dropBlockComments ('/' :: '*' :: rest) =
      match behindBlock? rest with
      | some behind => dropBlockComments behind
      | none => '/' :: '*' :: rest := by
  rw [dropBlockComments, dropBlockComments.go, dropBlockComments_go_some]
  rfl

theorem dropBlockComments_cons {c : Char} {rest : List Char}
    (h : ¬ (c = '/' ∧ rest.head? = some '*')) :
    dropBlockComments (c :: rest) = c :: dropBlockComments rest := by
  rw [dropBlockComments, dropBlockComments.go]
  · rfl
  · rintro behind rfl rfl
    exact h ⟨rfl, rfl⟩

/-- What a text begins with is not in a comment, unless it is a slash. -/
theorem head?_dropBlockComments {text : List Char} (h : text.head? ≠ some '/') :
    (dropBlockComments text).head? = text.head? := by
  cases text with
  | nil => rfl
  | cons c rest =>
      rw [dropBlockComments_cons fun hopen => h (congrArg some hopen.1)]
      rfl

/-- Induction along the pass: a character is kept, or a comment opens and is taken out, or it is not
closed and all that follows is kept. -/
@[elab_as_elim]
theorem dropBlockComments_induction {motive : List Char → Prop} (nil : motive [])
    (kept : ∀ c rest, ¬ (c = '/' ∧ rest.head? = some '*') → motive rest → motive (c :: rest))
    (closed : ∀ rest behind, behindBlock? rest = some behind → motive behind →
      motive ('/' :: '*' :: rest))
    (unclosed : ∀ rest, behindBlock? rest = none → motive ('/' :: '*' :: rest))
    (text : List Char) : motive text := by
  induction hlength : text.length using Nat.strong_induction_on generalizing text with
  | h n ih =>
      cases text with
      | nil => exact nil
      | cons c rest =>
          rw [List.length_cons] at hlength
          by_cases hopen : c = '/' ∧ rest.head? = some '*'
          · obtain ⟨rfl, hhead⟩ := hopen
            obtain ⟨inner, rfl⟩ := List.head?_eq_some_iff.mp hhead
            cases hend : behindBlock? inner with
            | none => exact unclosed inner hend
            | some behind =>
                have hshorter := (behindBlock?_suffix hend).length_le
                simp only [List.length_cons] at hlength hshorter
                exact closed inner behind hend (ih _ (by omega) behind rfl)
          · exact kept c rest hopen (ih _ (by omega) rest rfl)

/-- A text without an end of a block comment has no block comment. -/
theorem Plain.of_endless {text : List Char} (hlines : ¬ ['/', '/'] <:+: text)
    (hend : ¬ ['*', '/'] <:+: text) : Plain text := by
  refine ⟨hlines, fun inside hblock => hend (List.IsInfix.trans ?_ hblock)⟩
  exact (List.suffix_append ('/' :: '*' :: inside) ['*', '/']).isInfix

theorem Plain.cons {c : Char} {rest : List Char} (h : Plain rest)
    (hline : ¬ (c = '/' ∧ rest.head? = some '/')) (hblock : ¬ (c = '/' ∧ rest.head? = some '*')) :
    Plain (c :: rest) := by
  refine ⟨fun hpair => ?_, fun inside hcomment => ?_⟩
  · exact (pair_infix_cons_iff.mp hpair).elim hline h.lines
  · rcases List.infix_cons_iff.mp hcomment with hfront | hrest
    · obtain ⟨hc, behind, rfl⟩ := List.cons_prefix_cons.mp hfront
      exact hblock ⟨hc.symm, rfl⟩
    · exact h.blocks inside hrest

/-- An opening whose comment is not closed can stay. -/
theorem Plain.opened {rest : List Char} (hlines : ¬ ['/', '/'] <:+: '/' :: '*' :: rest)
    (hend : ¬ ['*', '/'] <:+: rest) : Plain ('/' :: '*' :: rest) := by
  refine ⟨hlines, fun inside hcomment => hend ?_⟩
  have hinside : ['*', '/'] <:+: inside ++ ['*', '/'] := (List.suffix_append inside _).isInfix
  rcases List.infix_cons_iff.mp hcomment with hfront | hrest
  · -- the comment would start at this very opening
    rw [List.cons_prefix_cons, List.cons_prefix_cons] at hfront
    exact hinside.trans hfront.2.2.isInfix
  · rcases List.infix_cons_iff.mp hrest with hfront | hrest
    · exact absurd (List.cons_prefix_cons.mp hfront).1 (by decide)
    · exact (hinside.trans (List.suffix_append ['/', '*'] _).isInfix).trans hrest

/-- No mark comes together where a block comment is taken out of a text without two slashes side by
side, because there is no slash before its opening and none behind its end. -/
theorem plain_dropBlockComments {text : List Char} (h : ¬ ['/', '/'] <:+: text) :
    Plain (dropBlockComments text) := by
  induction text using dropBlockComments_induction with
  | nil =>
      change Plain []
      exact .of_endless h (by simp)
  | kept c rest hopen ih =>
      obtain ⟨hslash, hrest⟩ := not_or.mp (pair_infix_cons_iff.not.mp h)
      have hhead : c = '/' → (dropBlockComments rest).head? = rest.head? := by
        rintro rfl
        exact head?_dropBlockComments fun hsecond => hslash ⟨rfl, hsecond⟩
      rw [dropBlockComments_cons hopen]
      apply (ih hrest).cons
      · rintro ⟨hc, hsecond⟩
        exact hslash ⟨hc, hhead hc ▸ hsecond⟩
      · rintro ⟨hc, hsecond⟩
        exact hopen ⟨hc, hhead hc ▸ hsecond⟩
  | closed rest behind hend ih =>
      rw [dropBlockComments_opened, hend]
      have hsuffix := (List.suffix_append ['*', '/'] behind).trans (behindBlock?_suffix hend)
      exact ih fun hline => h (hline.trans (hsuffix.trans
        (List.suffix_append ['/', '*'] rest)).isInfix)
  | unclosed rest hend =>
      rw [dropBlockComments_opened, hend]
      exact .opened h (behindBlock?_eq_none_iff.mp hend)

theorem dropBlockComments_eq_self {text : List Char}
    (h : ∀ inside, ¬ '/' :: '*' :: (inside ++ ['*', '/']) <:+: text) :
    dropBlockComments text = text := by
  induction text using dropBlockComments_induction with
  | nil => rfl
  | kept c rest hopen ih =>
      rw [dropBlockComments_cons hopen, ih fun inside hblock => h inside (hblock.trans ?_)]
      exact (List.suffix_cons c rest).isInfix
  | closed rest behind hend ih =>
      obtain ⟨inside, hinside⟩ := behindBlock?_suffix hend
      exact absurd ⟨[], behind, by simp [← hinside]⟩ (h inside)
  | unclosed rest hend => rw [dropBlockComments_opened, hend]

/-! ### Both passes -/

/-- A text that has been preprocessed holds nothing that could be taken for a comment, and comes out
the same when it is preprocessed again. -/
theorem preprocess_idempotent (text : List Char) :
    preprocess (preprocess text) = preprocess text ∧ Plain (preprocess text) := by
  have hplain : Plain (preprocess text) :=
    (plain_dropBlockComments (dropLineComments_lines text)).of_isInfix (trim_isInfix _)
  refine ⟨?_, hplain⟩
  rw [preprocess, dropLineComments_eq_self hplain.lines, dropBlockComments_eq_self hplain.blocks]
  exact trim_trim _

end ToyC.Source
