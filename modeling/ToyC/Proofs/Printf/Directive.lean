import ToyC.Printf.Directive
import ToyC.Proofs.Text

/-!
How directives are written. A directive is read from a text exactly where the text
starts with a spelling of it, whatever follows, and a spelling ends with the first
letter of a conversion; so a percent sign behind the first one ends the directive.
-/

namespace ToyC.Printf

open Text (isDigit StopsRun)

/-! ### Spellings -/

/-- A point with at least one digit, or nothing. -/
def IsPrecision (text : List Char) : Prop :=
  text = [] ∨ ∃ digits, text = '.' :: digits ∧ digits ≠ [] ∧ ∀ c ∈ digits, isDigit c = true

/-- The lengths that a directive may have in front of its letter. -/
def lengths : List (List Char) :=
  [[], ['h'], ['h', 'h'], ['l'], ['l', 'l']]

/-- A text that writes a directive behind a percent sign. A zero in front of the width is a flag. -/
inductive Directive.Spells : Directive → List Char → Prop
  | intro {flags width precision length : List Char} {letter : Char} {conversion : Conversion}
      (hflags : ∀ c ∈ flags, isFlag c = true) (hwidth : ∀ c ∈ width, isDigit c = true)
      (hstart : StopsRun isFlag width) (hprecision : IsPrecision precision)
      (hlength : length ∈ lengths) (hletter : Conversion.ofLetter? letter = some conversion) :
      Spells { layout := flags ++ width ++ precision, conversion }
        (flags ++ (width ++ (precision ++ (length ++ [letter]))))

/-- The letters of conversions. -/
def letters : List Char :=
  ['d', 'i', 'u', 'x', 'X', 'f', 'c', 's', '%']

theorem mem_letters {letter : Char} {conversion : Conversion}
    (h : Conversion.ofLetter? letter = some conversion) : letter ∈ letters := by
  unfold Conversion.ofLetter? at h
  split at h
  all_goals first | decide | cases h

/-- What may stand behind the precision: the letters of lengths and of conversions. -/
theorem not_layout_of_mem_letters : ∀ c ∈ 'h' :: 'l' :: letters,
    isFlag c = false ∧ isDigit c = false ∧ c ≠ '.' := by
  decide

theorem exists_head_length {length : List Char} (hlength : length ∈ lengths) {letter : Char}
    (hletter : letter ∈ letters) (rest : List Char) :
    ∃ c more, length ++ letter :: rest = c :: more ∧ c ∈ 'h' :: 'l' :: letters := by
  simp only [lengths, List.mem_cons, List.not_mem_nil, or_false] at hlength
  rcases hlength with rfl | rfl | rfl | rfl | rfl
  · exact ⟨letter, rest, rfl, List.mem_cons_of_mem _ (List.mem_cons_of_mem _ hletter)⟩
  all_goals exact ⟨_, _, rfl, by decide⟩

theorem skipLength_append {length : List Char} (hlength : length ∈ lengths) {letter : Char}
    (hletter : letter ∈ letters) (rest : List Char) :
    skipLength (length ++ letter :: rest) = letter :: rest := by
  have hplain : letter ≠ 'h' ∧ letter ≠ 'l' := by
    constructor
    all_goals
      rintro rfl
      exact absurd hletter (by decide)
  simp only [lengths, List.mem_cons, List.not_mem_nil, or_false] at hlength
  rcases hlength with rfl | rfl | rfl | rfl | rfl
  all_goals simp [skipLength, hplain.1, hplain.2]

theorem splitPrecision_append {precision : List Char} (hprecision : IsPrecision precision)
    {c : Char} (hc : isDigit c = false ∧ c ≠ '.') (rest : List Char) :
    splitPrecision (precision ++ c :: rest) = (precision, c :: rest) := by
  rcases hprecision with rfl | ⟨digits, rfl, hne, hdigits⟩
  · simp [splitPrecision, hc.2]
  · have hstop : StopsRun isDigit (c :: rest) := StopsRun.cons hc.1 rest
    have htake := Text.takeWhile_run hdigits hstop
    have hdrop := Text.dropWhile_run hdigits hstop
    rw [List.cons_append, splitPrecision, htake, hdrop]
    split
    · exact absurd rfl hne
    · rfl

/-- A directive is read from its spelling, whatever stands behind it. -/
theorem Directive.Spells.read? {d : Directive} {used : List Char} (h : d.Spells used)
    (rest : List Char) : Directive.read? (used ++ rest) = some (d, rest) := by
  cases h with
  | @intro flags width precision length letter conversion hflags hwidth hstart hprecision hlength
      hletter =>
      obtain ⟨c, more, htail, hc⟩ := exists_head_length hlength (mem_letters hletter) rest
      obtain ⟨hflag, hdigit, hpoint⟩ := not_layout_of_mem_letters c hc
      have hbehind : ∀ p : Char → Bool, p '.' = false → p c = false →
          StopsRun p (precision ++ c :: more) := by
        intro p hp hpc
        rcases hprecision with rfl | ⟨digits, rfl, -, -⟩
        · exact StopsRun.cons hpc more
        · exact StopsRun.cons hp _
      have hstopFlags : StopsRun isFlag (width ++ (precision ++ c :: more)) := by
        by_cases hwidthNil : width = []
        · rw [hwidthNil]
          exact hbehind isFlag (by decide) hflag
        · exact hstart.append hwidthNil _
      have hstopWidth : StopsRun isDigit (precision ++ c :: more) :=
        hbehind isDigit (by decide) hdigit
      have hsplit : flags ++ (width ++ (precision ++ (length ++ [letter]))) ++ rest =
          flags ++ (width ++ (precision ++ c :: more)) := by
        rw [← htail]
        simp
      have hlast := skipLength_append hlength (mem_letters hletter) rest
      rw [htail] at hlast
      rw [hsplit, Directive.read?, Text.takeWhile_run hflags hstopFlags,
        Text.dropWhile_run hflags hstopFlags]
      simp only [Text.takeWhile_run hwidth hstopWidth, Text.dropWhile_run hwidth hstopWidth,
        splitPrecision_append hprecision ⟨hdigit, hpoint⟩, hlast, hletter, Option.map_some]

/-- Splitting off a precision loses nothing. -/
theorem splitPrecision_spec (text : List Char) :
    text = (splitPrecision text).1 ++ (splitPrecision text).2 ∧
      IsPrecision (splitPrecision text).1 := by
  unfold splitPrecision
  split
  · rename_i rest
    have hdigits : ∀ c ∈ rest.takeWhile isDigit, isDigit c = true :=
      List.all_eq_true.mp List.all_takeWhile
    have hrest := List.takeWhile_append_dropWhile (p := isDigit) (l := rest)
    split
    · exact ⟨rfl, Or.inl rfl⟩
    · rename_i hne
      exact ⟨congrArg ('.' :: ·) hrest.symm, Or.inr ⟨_, rfl, hne, hdigits⟩⟩
  · exact ⟨rfl, Or.inl rfl⟩

theorem skipLength_spec (text : List Char) :
    ∃ length ∈ lengths, text = length ++ skipLength text := by
  unfold skipLength
  split
  · exact ⟨['h', 'h'], by decide, rfl⟩
  · exact ⟨['h'], by decide, rfl⟩
  · exact ⟨['l', 'l'], by decide, rfl⟩
  · exact ⟨['l'], by decide, rfl⟩
  · exact ⟨[], by decide, rfl⟩

/-- What is read is the directive that the text starts with a spelling of. -/
theorem Directive.read?_eq_some_iff {text rest : List Char} {d : Directive} :
    Directive.read? text = some (d, rest) ↔ ∃ used, d.Spells used ∧ text = used ++ rest := by
  constructor
  · intro h
    let flags := text.takeWhile isFlag
    let afterFlags := text.dropWhile isFlag
    let width := afterFlags.takeWhile isDigit
    let afterWidth := afterFlags.dropWhile isDigit
    let precision := (splitPrecision afterWidth).1
    let afterPrecision := (splitPrecision afterWidth).2
    have hflags : ∀ c ∈ flags, isFlag c = true := List.all_eq_true.mp List.all_takeWhile
    have hwidth : ∀ c ∈ width, isDigit c = true := List.all_eq_true.mp List.all_takeWhile
    have hstart : StopsRun isFlag width :=
      (Text.stops_dropWhile isFlag text).of_isPrefix (List.takeWhile_prefix isDigit)
    obtain ⟨hpoint, hprecision⟩ := splitPrecision_spec afterWidth
    obtain ⟨length, hlength, hskip⟩ := skipLength_spec afterPrecision
    simp only [Directive.read?] at h
    split at h
    · rename_i letter tail hletter
      obtain ⟨conversion, hconversion, hd⟩ := Option.map_eq_some_iff.mp h
      cases hd
      refine ⟨_, Spells.intro hflags hwidth hstart hprecision hlength hconversion, ?_⟩
      calc text = flags ++ afterFlags := List.takeWhile_append_dropWhile.symm
        _ = flags ++ (width ++ afterWidth) :=
          congrArg (flags ++ ·) List.takeWhile_append_dropWhile.symm
        _ = flags ++ (width ++ (precision ++ afterPrecision)) := by rw [← hpoint]
        _ = flags ++ (width ++ (precision ++ (length ++ letter :: rest))) := by
            rw [hskip, hletter]
        _ = flags ++ (width ++ (precision ++ (length ++ [letter]))) ++ rest := by simp
    · cases h
  · rintro ⟨used, hspells, rfl⟩
    exact hspells.read? rest

/-- Where a text starts with no directive, neither does a front of it. -/
theorem Directive.read?_of_append {text behind : List Char}
    (h : Directive.read? (text ++ behind) = none) : Directive.read? text = none := by
  cases hread : Directive.read? text with
  | none => rfl
  | some found =>
      obtain ⟨used, hspells, hused⟩ := Directive.read?_eq_some_iff.mp hread
      rw [hused, List.append_assoc, hspells.read?] at h
      cases h

/-! ### The pieces of a text -/

/-- A character that may stand in front of the letter of a directive. -/
def isInner (c : Char) : Bool :=
  isFlag c || isDigit c || c == '.' || c == 'h' || c == 'l'

theorem isInner_of_mem_lengths : ∀ length ∈ lengths, ∀ c ∈ length, isInner c = true := by
  decide

theorem IsPrecision.isInner {precision : List Char} (h : IsPrecision precision) :
    ∀ c ∈ precision, isInner c = true := by
  intro c hc
  rcases h with rfl | ⟨digits, rfl, -, hdigits⟩
  · cases hc
  · rcases List.mem_cons.mp hc with rfl | hmem
    · rfl
    · simp [Printf.isInner, hdigits c hmem]

theorem ne_percent_of_isInner {c : Char} (h : isInner c = true) : c ≠ '%' := by
  rintro rfl
  exact absurd h (by decide)

/-- A spelling ends with the first letter that may end it. -/
theorem Directive.Spells.exists_letter {d : Directive} {used : List Char} (h : d.Spells used) :
    ∃ front letter, used = front ++ [letter] ∧ (∀ c ∈ front, isInner c = true) ∧
      letter ∈ letters := by
  cases h with
  | @intro flags width precision length letter conversion hflags hwidth hstart hprecision hlength
      hletter =>
      refine ⟨flags ++ (width ++ (precision ++ length)), letter, by simp, ?_, mem_letters hletter⟩
      intro c hc
      simp only [List.mem_append] at hc
      rcases hc with hflag | hdigit | hpoint | hlong
      · simp [isInner, hflags c hflag]
      · simp [isInner, hwidth c hdigit]
      · exact hprecision.isInner c hpoint
      · exact isInner_of_mem_lengths length hlength c hlong

theorem pieces_directive {text rest : List Char} {d : Directive}
    (h : Directive.read? text = some (d, rest)) :
    pieces ('%' :: text) = .directive d :: pieces rest := by
  rw [pieces, if_pos rfl]
  split
  · rename_i heq
    rw [h] at heq
    cases heq
    rfl
  · rename_i heq
    rw [h] at heq
    cases heq

/-- A character is plain where no directive starts. -/
theorem pieces_cons {c : Char} {text : List Char}
    (h : c = '%' → Directive.read? text = none) :
    pieces (c :: text) = .plain c :: pieces text := by
  rw [pieces]
  split
  · rename_i hc
    split
    · rename_i heq
      rw [h hc] at heq
      cases heq
    · rfl
  · rfl

theorem pieces_plain {c : Char} (h : c ≠ '%') (text : List Char) :
    pieces (c :: text) = .plain c :: pieces text :=
  pieces_cons fun hc => absurd hc h

end ToyC.Printf
