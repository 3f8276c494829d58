import ToyC.Proofs.Syntax.Inline
import ToyC.Syntax.Outline

/-!
Parts of a logical line. A part that is as short as it can be is the part that was
written, since no end of a statement starts inside it. A line that starts with a
word is not taken for a line that starts with another one, however the two begin.
-/

namespace ToyC

open Source (isSpace isBlank_of_isSpace isSpace_cases)
open Text (isBlank isWord skipBlanks Trimmed StopsRun)

/-! ### Spaces behind a word -/

theorem stops_space {space : List Char} (hspace : ∀ c ∈ space, isSpace c = true)
    (hne : space ≠ []) (rest : List Char) : StopsRun isWord (space ++ rest) := by
  cases space with
  | nil => exact absurd rfl hne
  | cons c space =>
      apply StopsRun.cons
      rcases isSpace_cases (hspace c List.mem_cons_self) with rfl | rfl | rfl <;> decide

theorem stops_word_of_space {space rest : List Char} (hspace : ∀ c ∈ space, isSpace c = true)
    (hrest : space = [] → StopsRun isWord rest) : StopsRun isWord (space ++ rest) := by
  by_cases hne : space = []
  · rw [hne]
    exact hrest hne
  · exact stops_space hspace hne rest

namespace Shape

/-! ### Ends of statements -/

/-- What may stand behind the last part of a statement: nothing, where it is a clause of a
header, or a semicolon. -/
def IsEnd (tail : List Char) : Prop :=
  tail = [] ∨ ∃ space, (∀ c ∈ space, isSpace c = true) ∧ tail = space ++ [';']

theorem IsEnd.mem {tail : List Char} (h : IsEnd tail) : ∀ c ∈ tail, isSpace c = true ∨ c = ';' := by
  intro c hc
  rcases h with rfl | ⟨space, hspace, rfl⟩
  · cases hc
  · rcases List.mem_append.mp hc with hmem | hmem
    · exact Or.inl (hspace c hmem)
    · exact Or.inr (List.mem_singleton.mp hmem)

theorem IsEnd.endsStatement {tail : List Char} (h : IsEnd tail) : endsStatement tail = true := by
  rcases h with rfl | ⟨space, hspace, rfl⟩
  · rfl
  · rw [Shape.endsStatement,
      Source.skipBlanks_spaces hspace]
    rfl

theorem IsEnd.stops {tail : List Char} (h : IsEnd tail) : StopsRun isWord tail := by
  cases tail with
  | nil => exact StopsRun.nil _
  | cons c tail =>
      apply StopsRun.cons
      rcases h.mem c List.mem_cons_self with hspace | rfl
      · rcases isSpace_cases hspace with rfl | rfl | rfl <;> decide
      · decide

/-- A text that a statement does not end inside: its last character is no blank and no
semicolon. -/
def Holds (text : List Char) : Prop :=
  ∀ c ∈ text.getLast?, isBlank c = false ∧ c ≠ ';'

theorem Holds.tail {c : Char} {text : List Char} (h : Holds (c :: text)) : Holds text := by
  cases text with
  | nil => intro d hd; cases hd
  | cons d rest =>
      rw [Holds, List.getLast?_cons_cons] at h
      exact h

theorem endsStatement_mem {text : List Char} (h : endsStatement text = true) :
    ∀ c ∈ text, isBlank c = true ∨ c = ';' := by
  have hskip : ∀ c ∈ skipBlanks text, isBlank c = true ∨ c = ';' := by
    rw [endsStatement] at h
    split at h
    · rename_i heq; rw [heq]; decide
    · rename_i heq; rw [heq]; decide
    · rename_i heq; rw [heq]; decide
    · cases h
  intro c hc
  rw [← List.takeWhile_append_dropWhile (p := isBlank) (l := text)] at hc
  rcases List.mem_append.mp hc with hmem | hmem
  · exact Or.inl (List.all_eq_true.mp List.all_takeWhile c hmem)
  · exact hskip c hmem

theorem Holds.endsStatement {text : List Char} (h : Holds text) (hne : text ≠ [])
    (tail : List Char) : endsStatement (text ++ tail) = false := by
  obtain ⟨hblank, hend⟩ := h _ (List.getLast?_eq_some_getLast hne)
  cases hends : Shape.endsStatement (text ++ tail) with
  | false => rfl
  | true =>
      have hlast := List.mem_append_left tail (List.getLast_mem hne)
      rcases endsStatement_mem hends _ hlast with hyes | hyes
      · rw [hblank] at hyes
        cases hyes
      · exact absurd hyes hend

/-! ### Parts as short as they can be -/

theorem shortestPart?_append {text tail : List Char} (h : Holds text) (hline : '\n' ∉ text)
    (htail : Shape.endsStatement tail = true) : shortestPart? (text ++ tail) = some text := by
  induction text with
  | nil =>
      cases tail with
      | nil => rfl
      | cons c rest => rw [List.nil_append, shortestPart?, if_pos htail]
  | cons c rest ih =>
      have hends := h.endsStatement (List.cons_ne_nil c rest) tail
      have hne : c ≠ '\n' := fun heq => hline (heq ▸ List.mem_cons_self)
      have hrest := ih h.tail fun hmem => hline (List.mem_cons_of_mem _ hmem)
      rw [List.cons_append] at hends ⊢
      rw [shortestPart?, hends, if_neg Bool.false_ne_true, if_neg hne, hrest]
      rfl

/-- A part behind spaces is the text that was put there. -/
theorem partAfterBlanks?_append {least : Nat} {space text tail : List Char}
    (hspace : ∀ c ∈ space, isSpace c = true) (hleast : least ≤ space.length)
    (htrim : Trimmed text) (h : Holds text) (hline : '\n' ∉ text)
    (htail : Shape.endsStatement tail = true) :
    partAfterBlanks? least (space ++ (text ++ tail)) = some text := by
  have hblank : ∀ c ∈ space, isBlank c = true := Source.isBlank_spaces hspace
  have htake : (space ++ (text ++ tail)).takeWhile isBlank = space :=
    Text.takeWhile_run hblank (htrim.stops tail)
  have hskip : skipBlanks (space ++ (text ++ tail)) = text ++ tail :=
    Text.dropWhile_run hblank (htrim.stops tail)
  rw [partAfterBlanks?, htake, if_neg (Nat.not_lt.mpr hleast), hskip]
  obtain ⟨c, rest, rfl, -⟩ := htrim.starts
  have hrest := shortestPart?_append h.tail
    (fun hmem => hline (List.mem_cons_of_mem _ hmem)) htail
  rw [List.cons_append]
  simp only [hrest, Option.map_some]

theorem upToLastParen?_none {text : List Char} (h : ')' ∉ text) : upToLastParen? text = none := by
  induction text with
  | nil => rfl
  | cons c rest ih =>
      have hrest := ih fun hmem => h (List.mem_cons_of_mem _ hmem)
      have hne : c ≠ ')' := fun heq => h (heq ▸ List.mem_cons_self)
      rw [upToLastParen?, hrest]
      simp [hne]

theorem upToLastParen?_append {inside tail : List Char} (hline : '\n' ∉ inside)
    (htail : IsEnd tail) : upToLastParen? (inside ++ ')' :: tail) = some inside := by
  induction inside with
  | nil =>
      have hnone : upToLastParen? tail = none := by
        apply upToLastParen?_none
        intro hmem
        rcases htail.mem _ hmem with hspace | hend
        · exact absurd hspace (by decide)
        · exact absurd hend (by decide)
      rw [List.nil_append, upToLastParen?, hnone, if_neg (by decide)]
      simp [htail.endsStatement]
  | cons c rest ih =>
      have hne : c ≠ '\n' := fun heq => hline (heq ▸ List.mem_cons_self)
      have hrest := ih fun hmem => hline (List.mem_cons_of_mem _ hmem)
      rw [List.cons_append, upToLastParen?, if_neg hne, hrest]

theorem parenthesised?_append {space inside tail : List Char}
    (hspace : ∀ c ∈ space, isSpace c = true) (hline : '\n' ∉ inside) (htail : IsEnd tail) :
    parenthesised? (space ++ '(' :: (inside ++ ')' :: tail)) = some inside := by
  rw [parenthesised?, Source.skipBlanks_spaces hspace]
  exact upToLastParen?_append hline htail

/-! ### Words at the start of a line -/

theorem after?_append (word rest : List Char) : after? word (word ++ rest) = some rest := by
  rw [after?, if_pos (List.isPrefixOf_iff_prefix.mpr (List.prefix_append word rest)),
    List.drop_left]

/-- A line that starts with a word, which ends there. -/
structure Leads (word line : List Char) : Prop where
  chars : ∀ c ∈ word, Token.isNameRest c = true
  split : ∃ rest, line = word ++ rest ∧ StopsRun isWord rest

namespace Leads

variable {word keyword line : List Char}

/-- Where a line starts with a word, another one that it starts with too ends inside the
first. -/
theorem after? (h : Leads word line) (hkeyword : ∀ c ∈ keyword, isWord c = true)
    (hne : keyword ≠ word) {behind : List Char} (hafter : after? keyword line = some behind) :
    ∃ c more rest, word = keyword ++ c :: more ∧ behind = c :: rest := by
  obtain ⟨rest, rfl, hstop⟩ := h.split
  rw [Shape.after?] at hafter
  split at hafter
  · rename_i hprefix
    cases hafter
    rw [List.isPrefixOf_iff_prefix] at hprefix
    by_cases hlength : keyword.length ≤ word.length
    · obtain ⟨more, rfl⟩ := List.prefix_of_prefix_length_le hprefix
        (List.prefix_append word rest) hlength
      cases more with
      | nil => exact absurd (List.append_nil keyword).symm hne
      | cons c more =>
          rw [List.append_assoc, List.drop_left]
          exact ⟨c, more, more ++ rest, rfl, rfl⟩
    · -- A keyword longer than the word would reach past the end of the word.
      obtain ⟨more, rfl⟩ := List.prefix_of_prefix_length_le (List.prefix_append word rest)
        hprefix (Nat.le_of_not_le hlength)
      cases more with
      | nil => simp at hlength
      | cons c more =>
          obtain ⟨tail, htail⟩ := hprefix
          rw [List.append_assoc, List.append_cancel_left_eq] at htail
          have hword := hkeyword c (List.mem_append_right _ List.mem_cons_self)
          have hnot : isWord c = false := by
            apply hstop
            rw [← htail]
            rfl
          rw [hnot] at hword
          cases hword
  · cases hafter

theorem stops (h : Leads word line) (hne : word ≠ []) : StopsRun isBlank line := by
  obtain ⟨rest, rfl, -⟩ := h.split
  cases word with
  | nil => exact absurd rfl hne
  | cons c word =>
      exact StopsRun.cons (Token.isBlank_of_isNameRest (h.chars c List.mem_cons_self)) _

theorem after?_mem (h : Leads word line) (hkeyword : ∀ c ∈ keyword, isWord c = true)
    (hne : keyword ≠ word) {behind : List Char} (hafter : Shape.after? keyword line = some behind) :
    ∃ c rest, behind = c :: rest ∧ Token.isNameRest c = true := by
  obtain ⟨c, more, rest, rfl, rfl⟩ := h.after? hkeyword hne hafter
  exact ⟨c, rest, rfl, h.chars c (List.mem_append_right _ List.mem_cons_self)⟩

theorem afterWord? (h : Leads word line) (hkeyword : ∀ c ∈ keyword, isWord c = true)
    (hne : keyword ≠ word) : afterWord? keyword line = none := by
  rw [Shape.afterWord?]
  split
  · rename_i hafter
    obtain ⟨c, rest, hnil, -⟩ := h.after?_mem hkeyword hne hafter
    cases hnil
  · rename_i d rest hafter
    obtain ⟨c, more, hcons, hname⟩ := h.after?_mem hkeyword hne hafter
    cases hcons
    rw [if_pos (Token.isWord_of_isNameRest hname)]
  · rfl

theorem returns? (h : Leads word line) (hne : "return".toList ≠ word) : returns? line = none := by
  rw [Shape.returns?, h.afterWord? (by decide) hne]
  rfl

/-- Behind a keyword that is not the word there is no parenthesis. -/
theorem skipBlanks_after? (h : Leads word line) (hkeyword : ∀ c ∈ keyword, isWord c = true)
    (hne : keyword ≠ word) {behind : List Char}
    (hafter : Shape.after? keyword line = some behind) (inside : List Char) :
    skipBlanks behind ≠ '(' :: inside := by
  obtain ⟨c, rest, rfl, hname⟩ := h.after?_mem hkeyword hne hafter
  rw [Text.skipBlanks_of_stops (StopsRun.cons (Token.isBlank_of_isNameRest hname) rest)]
  intro heq
  cases heq
  exact absurd hname (by decide)

theorem prints? (h : Leads word line) (hne : "printf".toList ≠ word) : prints? line = none := by
  have hnone : (Shape.after? "printf".toList line).bind parenthesised? = none := by
    cases hafter : Shape.after? "printf".toList line with
    | none => rfl
    | some behind =>
        have hskip := h.skipBlanks_after? (by decide) hne hafter
        rw [Option.bind_some, parenthesised?]
        split
        · rename_i inside heq
          exact absurd heq (hskip inside)
        · rfl
  rw [Shape.prints?, hnone]
  rfl

theorem header? (h : Leads word line) (hbranch : "if".toList ≠ word)
    (hwhile : "while".toList ≠ word) (hfor : "for".toList ≠ word) : header? line = none := by
  rw [ToyC.header?, List.findSome?_eq_none_iff]
  intro keyword _
  have hne : keyword.word.toList ≠ word := by
    cases keyword with
    | branch => exact hbranch
    | whileLoop => exact hwhile
    | forLoop => exact hfor
  have hkeyword : ∀ c ∈ keyword.word.toList, isWord c = true := by
    cases keyword <;> decide
  cases hafter : Shape.after? keyword.word.toList line with
  | none => rfl
  | some behind =>
      have hskip := h.skipBlanks_after? hkeyword hne hafter
      rw [Option.bind_some]
      split
      · rename_i inside heq
        exact absurd heq (hskip inside)
      · rfl

theorem otherwise? (h : Leads word line) (hne : "else".toList ≠ word) : otherwise? line = none := by
  rw [ToyC.otherwise?, h.afterWord? (by decide) hne]
  rfl

/-- A line that starts with a word is no statement of another word. -/
theorem word? (h : Leads word line) (hkeyword : ∀ c ∈ keyword, isWord c = true)
    (hne : keyword ≠ word) (shape : Shape) : word? keyword shape line = none := by
  rw [Shape.word?]
  cases hafter : Shape.after? keyword line with
  | none => rfl
  | some behind =>
      obtain ⟨c, rest, rfl, hname⟩ := h.after?_mem hkeyword hne hafter
      have hends : endsStatement (c :: rest) = false := by
        cases hyes : endsStatement (c :: rest) with
        | false => rfl
        | true =>
            rcases endsStatement_mem hyes c List.mem_cons_self with hblank | hend
            · rw [Token.isBlank_of_isNameRest hname] at hblank
              cases hblank
            · exact absurd hend (Token.ne_of_isNameRest hname (by decide))
      rw [Option.bind_some, hends]
      rfl

end Leads

end Shape

end ToyC
