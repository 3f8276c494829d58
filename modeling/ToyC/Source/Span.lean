import ToyC.Text.Blank

/-!
The span of a parenthesised header. Parentheses are counted on the raw text, also
inside literals.
-/

namespace ToyC.Source

/-- The text up to the parenthesis that brings the depth to zero, and the text behind it. -/
def closeSpan : Int → List Char → Option (List Char × List Char)
  | _, [] => none
  | depth, c :: rest =>
    if c = ')' ∧ depth = 1 then some ([], rest)
    else
      let next := if c = '(' then depth + 1 else if c = ')' then depth - 1 else depth
      (closeSpan next rest).map fun (inside, behind) => (c :: inside, behind)

/-- The text inside the parenthesis that a text starts with, and the trimmed text behind it. A
text that starts with another character is measured from there all the same: the first
character is left out, and the span ends where the count of parentheses returns to zero. -/
def parenSpan? : List Char → Option (List Char × List Char)
  | [] => none
  | c :: rest =>
    let depth : Int := if c = '(' then 1 else if c = ')' then -1 else 0
    (closeSpan depth rest).map fun (inside, behind) => (inside, Text.trim behind)

theorem closeSpan_length {depth : Int} {text inside behind : List Char}
    (h : closeSpan depth text = some (inside, behind)) :
    inside.length + behind.length + 1 = text.length := by
  induction text generalizing depth inside with
  | nil => simp [closeSpan] at h
  | cons c rest ih =>
    simp only [closeSpan] at h
    split at h
    · cases h; simp
    · obtain ⟨⟨i, b⟩, hi, hb⟩ := Option.map_eq_some_iff.1 h
      simp only [Prod.mk.injEq] at hb
      obtain ⟨rfl, rfl⟩ := hb
      have := ih hi
      simp only [List.length_cons]
      omega

/-- What stands behind the span is shorter than the text by at least the two parentheses. -/
theorem parenSpan?_length {text inside behind : List Char}
    (h : parenSpan? text = some (inside, behind)) :
    inside.length + behind.length + 2 ≤ text.length := by
  cases text with
  | nil => simp [parenSpan?] at h
  | cons c rest =>
    obtain ⟨⟨i, b⟩, hi, hb⟩ := Option.map_eq_some_iff.1 h
    simp only [Prod.mk.injEq] at hb
    obtain ⟨rfl, rfl⟩ := hb
    have h1 := closeSpan_length hi
    have h2 := Text.trim_length_le b
    simp only [List.length_cons]
    omega

end ToyC.Source
