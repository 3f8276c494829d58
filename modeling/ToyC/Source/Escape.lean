/-!
Escapes in literals: a backslash with a letter or sign behind it. A backslash
that starts no known escape stays, and so does the character behind it. A text is
written as a literal with escapes that reading takes away again.
-/

namespace ToyC.Source

def escape? : Char → Option Char
  | 'n' => some '\n'
  | 't' => some '\t'
  | 'r' => some '\r'
  | '0' => some '\x00'
  | '\\' => some '\\'
  | '"' => some '"'
  | '\'' => some '\''
  | _ => none

def unescape : List Char → List Char
  | [] => []
  | '\\' :: c :: rest =>
    match escape? c with
    | some e => e :: unescape rest
    | none => if c = '\n' then '\\' :: unescape (c :: rest) else '\\' :: c :: unescape rest
  | c :: rest => c :: unescape rest

/-- The inside of a string literal for a text. Newlines may stand in an expression but not
in a line of a program, where they are escaped as well. -/
def escape (breaks : Bool) : List Char → List Char
  | [] => []
  | c :: rest =>
    if c = '\\' ∨ c = '"' then '\\' :: c :: escape breaks rest
    else if breaks = true ∧ c = '\n' then '\\' :: 'n' :: escape breaks rest
    else c :: escape breaks rest

/-- Escaping adds backslashes and, for newlines, a letter. -/
theorem mem_escape {breaks : Bool} {c : Char} {text : List Char} (h : c ∈ escape breaks text) :
    c = '\\' ∨ c = 'n' ∨ c ∈ text ∧ (breaks = true → c ≠ '\n') := by
  induction text with
  | nil => cases h
  | cons d rest ih =>
      have hrest : c ∈ escape breaks rest →
          c = '\\' ∨ c = 'n' ∨ c ∈ d :: rest ∧ (breaks = true → c ≠ '\n') := by
        intro hc
        rcases ih hc with hslash | hletter | ⟨hmem, hbreak⟩
        · exact Or.inl hslash
        · exact Or.inr (Or.inl hletter)
        · exact Or.inr (Or.inr ⟨List.mem_cons_of_mem _ hmem, hbreak⟩)
      rw [escape] at h
      split at h
      · rename_i hd
        simp only [List.mem_cons] at h
        rcases h with hslash | rfl | hc
        · exact Or.inl hslash
        · refine Or.inr (Or.inr ⟨List.mem_cons_self, fun _ => ?_⟩)
          rcases hd with rfl | rfl <;> decide
        · exact hrest hc
      · split at h
        · simp only [List.mem_cons] at h
          rcases h with hslash | hletter | hc
          · exact Or.inl hslash
          · exact Or.inr (Or.inl hletter)
          · exact hrest hc
        · rename_i hbreak
          rcases List.mem_cons.mp h with rfl | hc
          · exact Or.inr (Or.inr ⟨List.mem_cons_self, fun hb heq => hbreak ⟨hb, heq⟩⟩)
          · exact hrest hc

theorem unescape_cons {c : Char} (h : c ≠ '\\') (rest : List Char) :
    unescape (c :: rest) = c :: unescape rest := by
  cases rest with
  | nil => simp [unescape]
  | cons d rest => simp [unescape, h]

theorem unescape_escape (breaks : Bool) (text : List Char) :
    unescape (escape breaks text) = text := by
  induction text with
  | nil => rfl
  | cons c rest ih =>
      rw [escape]
      split
      · rename_i hc
        rcases hc with rfl | rfl
        · simp [unescape, escape?, ih]
        · simp [unescape, escape?, ih]
      · rename_i hc
        split
        · rename_i hbreak
          rw [hbreak.2]
          simp [unescape, escape?, ih]
        · rw [unescape_cons (fun heq => hc (Or.inl heq)), ih]

end ToyC.Source
