import ToyC.Proofs.Source.Comment
import ToyC.Source.Argument

/-!
Comments as a single scan would find them, one that knows literals. The two passes
know none, and the first of them removes line comments inside block comments too.
The main statement is that this makes no difference to a text whose comments
cannot be mistaken: none seems to open in a literal, and no block comment has its
end hidden by two slashes.
-/

namespace ToyC.Source

/-! ### One scan -/

/-- The text behind the comment that a text begins with. A line comment ends before the newline, and
a block comment that is not closed is none. -/
def behindComment? : List Char → Option (List Char)
  | '/' :: '/' :: rest => some (rest.dropWhile (· ≠ '\n'))
  | '/' :: '*' :: rest => behindBlock? rest
  | _ => none

theorem behindComment?_length_lt {text behind : List Char}
    (h : behindComment? text = some behind) : behind.length < text.length := by
  unfold behindComment? at h
  split at h
  · rename_i rest
    cases h
    have hle := (List.dropWhile_sublist (fun c => decide (c ≠ '\n')) (l := rest)).length_le
    simp only [List.length_cons]
    omega
  · have hle := (behindBlock?_suffix h).length_le
    simp only [List.length_cons] at hle ⊢
    omega
  · cases h

/-- The text without the comments that open outside literals. What is a literal is said by the
cursor that also divides a text into logical lines. -/
def uncommented (cursor : Cursor) : List Char → List Char
  | [] => []
  | c :: rest =>
    match _hcomment : behindComment? (c :: rest) with
    | some behind =>
      if cursor.outside then uncommented cursor behind
      else c :: uncommented (cursor.step c) rest
    | none => c :: uncommented (cursor.step c) rest
termination_by text => text.length
decreasing_by
  · exact behindComment?_length_lt _hcomment
  · exact Nat.lt_succ_self _
  · exact Nat.lt_succ_self _

/-- Whether the comment that a text begins with ends in sight: a block comment does not end behind
two slashes on the same line, and no slash stands behind its end. -/
def endsInSight : List Char → Bool
  | '/' :: '*' :: rest => go false rest
  | _ => true
where
  /-- `hidden` tells whether two slashes stand before on the line. -/
  go (hidden : Bool) : List Char → Bool
    | [] => true
    | '*' :: '/' :: rest => !hidden && rest.head? != some '/'
    | '/' :: '/' :: rest => go true rest
    | c :: rest => go (hidden && c != '\n') rest

/-- Whether no comment of a text can be mistaken: none seems to open in a literal, and each ends in
sight. -/
def unmistakable (cursor : Cursor) : List Char → Bool
  | [] => true
  | c :: rest =>
    match _hcomment : behindComment? (c :: rest) with
    | some behind =>
      cursor.outside && endsInSight (c :: rest) && unmistakable cursor behind
    | none => unmistakable (cursor.step c) rest
termination_by text => text.length
decreasing_by
  · exact behindComment?_length_lt _hcomment
  · exact Nat.lt_succ_self _

/-! ### Two passes -/

/-- The text without comments as the two passes leave it. -/
def passed (text : List Char) : List Char :=
  dropBlockComments (dropLineComments text)

/-- An end in sight is still the next one when line comments have been taken out. -/
theorem behindBlock?_dropLineComments {hidden : Bool} {text behind : List Char}
    (hsight : endsInSight.go hidden text = true) (hend : behindBlock? text = some behind) :
    behindBlock? (dropLineComments.go hidden text) = some (dropLineComments behind) := by
  fun_induction endsInSight.go hidden text with
  | case1 => cases hend
  | case2 hidden rest =>
      simp only [Bool.and_eq_true, Bool.not_eq_true', bne_iff_ne] at hsight
      obtain ⟨rfl, hapart⟩ := hsight
      obtain rfl := Option.some.inj hend
      change behindBlock? (dropLineComments ('*' :: '/' :: rest)) = _
      rw [dropLineComments_cons (by simp),
        dropLineComments_cons fun hpair => hapart hpair.2]
      rfl
  | case3 hidden rest ih =>
      rw [behindBlock?_cons (by simp), behindBlock?_cons (by simp)] at hend
      cases hidden with
      | false => exact ih hsight hend
      | true => exact ih hsight hend
  | case4 hidden c rest hmark hslash ih =>
      have hopen : ¬ (c = '*' ∧ rest.head? = some '/') := not_front_pair hmark
      rw [behindBlock?_cons hopen] at hend
      have hrest := ih hsight hend
      cases hidden with
      | false =>
          change behindBlock? (dropLineComments (c :: rest)) = _
          rw [dropLineComments_cons (not_front_pair hslash), behindBlock?_cons]
          · exact hrest
          · rintro ⟨hc, hhead⟩
            exact hopen ⟨hc, ((dropLineComments_go_lines false rest).2 hhead).2⟩
      | true =>
          by_cases hline : c = '\n'
          · subst hline
            exact hrest
          · have hstays : (true && c != '\n') = true := by simpa using hline
            rw [hstays] at hrest
            rwa [dropLineComments.go, if_neg hline]

/-! ### Agreement -/

theorem passed_line (rest : List Char) :
    passed ('/' :: '/' :: rest) = passed (rest.dropWhile (· ≠ '\n')) :=
  congrArg dropBlockComments (dropLineComments_go_true rest)

theorem passed_block {rest behind : List Char} (hsight : endsInSight ('/' :: '*' :: rest) = true)
    (hend : behindBlock? rest = some behind) : passed ('/' :: '*' :: rest) = passed behind := by
  have hkept := behindBlock?_dropLineComments hsight hend
  rw [passed, dropLineComments_cons (by simp), dropLineComments_cons (by simp),
    dropBlockComments_opened, dropLineComments, hkept]
  rfl

/-- Both passes together take out a comment that ends in sight. -/
theorem passed_comment {text behind : List Char} (hcomment : behindComment? text = some behind)
    (hsight : endsInSight text = true) : passed text = passed behind := by
  unfold behindComment? at hcomment
  split at hcomment
  · cases hcomment
    exact passed_line _
  · exact passed_block hsight hcomment
  · cases hcomment

/-- Both passes keep a character that no comment begins with. -/
theorem passed_cons {c : Char} {rest : List Char} (h : behindComment? (c :: rest) = none) :
    passed (c :: rest) = c :: passed rest := by
  have hpair : ¬ (c = '/' ∧ rest.head? = some '/') := by
    rintro ⟨rfl, hhead⟩
    obtain ⟨inner, rfl⟩ := List.head?_eq_some_iff.mp hhead
    cases h
  rw [passed, dropLineComments_cons hpair]
  by_cases hopen : c = '/' ∧ rest.head? = some '*'
  · -- a comment that is not closed: neither pass takes anything out of what follows
    obtain ⟨rfl, hhead⟩ := hopen
    obtain ⟨inner, rfl⟩ := List.head?_eq_some_iff.mp hhead
    have hend : ¬ ['*', '/'] <:+: dropLineComments inner :=
      dropLineComments_go_endless (behindBlock?_eq_none_iff.mp h)
    have hplain : Plain (dropLineComments inner) := .of_endless (dropLineComments_lines inner) hend
    rw [passed, dropLineComments_cons (by simp), dropBlockComments_opened,
      behindBlock?_eq_none_iff.mpr hend, dropBlockComments_cons (by simp),
      dropBlockComments_eq_self hplain.blocks]
  · refine dropBlockComments_cons ?_
    rintro ⟨hc, hhead⟩
    rw [head?_dropLineComments fun hsecond => hpair ⟨hc, hsecond⟩] at hhead
    exact hopen ⟨hc, hhead⟩

theorem unmistakable_comment {cursor : Cursor} {c : Char} {rest behind : List Char}
    (hcomment : behindComment? (c :: rest) = some behind)
    (h : unmistakable cursor (c :: rest) = true) :
    cursor.outside = true ∧ endsInSight (c :: rest) = true ∧
      unmistakable cursor behind = true := by
  rw [unmistakable] at h
  split at h
  · rename_i found hfound
    obtain rfl := Option.some.inj (hfound.symm.trans hcomment)
    simpa [and_assoc] using h
  · rename_i hnone
    cases hnone.symm.trans hcomment

theorem unmistakable_cons {cursor : Cursor} {c : Char} {rest : List Char}
    (hcomment : behindComment? (c :: rest) = none)
    (h : unmistakable cursor (c :: rest) = true) :
    unmistakable (cursor.step c) rest = true := by
  rw [unmistakable] at h
  split at h
  · rename_i found hfound
    cases hfound.symm.trans hcomment
  · exact h

/-- A text whose comments cannot be mistaken loses the same comments in two passes and in one
scan. -/
theorem passed_eq_uncommented {cursor : Cursor} {text : List Char}
    (h : unmistakable cursor text = true) : passed text = uncommented cursor text := by
  fun_induction uncommented cursor text with
  | case1 => rfl
  | case2 cursor c rest behind hcomment houtside ih =>
      obtain ⟨-, hsight, hbehind⟩ := unmistakable_comment hcomment h
      rw [passed_comment hcomment hsight, ih hbehind]
  | case3 cursor c rest behind hcomment hinside ih =>
      -- a comment that seems to open in a literal is mistaken
      exact absurd (unmistakable_comment hcomment h).1 hinside
  | case4 cursor c rest hcomment ih =>
      rw [passed_cons hcomment, ih (unmistakable_cons hcomment h)]

/-- Preprocessing trims what a single scan leaves that knows literals, as long as no comment of the
text can be mistaken. -/
theorem preprocess_eq_trim_uncommented {text : List Char} (h : unmistakable {} text = true) :
    preprocess text = Text.trim (uncommented {} text) :=
  congrArg Text.trim (passed_eq_uncommented h)

/-- A line comment with a quote and an opening in it, a block comment with two slashes above its
last line, literals with escaped quotes and with an opening, and an opening that stays. -/
theorem preprocess_eq_trim_uncommented_literals :
    let text := ("// it's /* only\nint q; /* see http://x\n ' */ q = '\\'';\n" ++
      "printf(\"\\\"/*\", 6 / 2); /* left // out").toList
    unmistakable {} text = true ∧ preprocess text = Text.trim (uncommented {} text) ∧
      preprocess text =
        "int q;  q = '\\'';\nprintf(\"\\\"/*\", 6 / 2); /* left".toList := by
  intro text
  have hclear : unmistakable {} text = true := by decide +kernel
  exact ⟨hclear, preprocess_eq_trim_uncommented hclear, by decide +kernel⟩

/-- Comments that are mistaken: an address in a literal is cut off at its slashes, and a block
comment in which a line comment seems to open loses its end and stays. The rest of the line is
lost both times. -/
theorem preprocess_ne_trim_uncommented :
    let address := "int main() \x7b printf(\"see http://x\"); return 0; \x7d".toList
    let note := "int x; /* see // note */ int y;".toList
    preprocess address = "int main() \x7b printf(\"see http:".toList ∧
      Text.trim (uncommented {} address) = address ∧
      preprocess note = "int x; /* see".toList ∧
      Text.trim (uncommented {} note) = "int x;  int y;".toList ∧
      ¬ ∀ text, preprocess text = Text.trim (uncommented {} text) := by
  intro address note
  have hcut : preprocess note = "int x; /* see".toList := by decide +kernel
  have hscan : Text.trim (uncommented {} note) = "int x;  int y;".toList := by decide +kernel
  refine ⟨by decide +kernel, by decide +kernel, hcut, hscan, fun h => ?_⟩
  have hsame := h note
  rw [hcut, hscan] at hsame
  exact absurd hsame (by decide +kernel)

end ToyC.Source
