import ToyC.Text.Word

/-!
The directives of a format: a percent sign, flags, width and precision, an
optional length that has no effect, and the letter of a conversion. A percent
sign that starts no directive stands for itself.
-/

namespace ToyC.Printf

inductive Conversion where
  | decimal
  | hexLower
  | hexUpper
  | fixed
  | character
  | string
  /-- a percent sign; takes no value -/
  | percent
  deriving DecidableEq, Repr

def Conversion.ofLetter? : Char → Option Conversion
  | 'd' | 'i' | 'u' => some .decimal
  | 'x' => some .hexLower
  | 'X' => some .hexUpper
  | 'f' => some .fixed
  | 'c' => some .character
  | 's' => some .string
  | '%' => some .percent
  | _ => none

/-- A directive: the text of its flags, width and precision, and its conversion. -/
structure Directive where
  layout : List Char
  conversion : Conversion
  deriving DecidableEq, Repr

inductive Piece where
  | plain (c : Char)
  | directive (d : Directive)
  deriving DecidableEq, Repr

def isFlag (c : Char) : Bool :=
  c == '-' || c == '+' || c == ' ' || c == '#' || c == '0'

/-- Split off a point with at least one digit behind it. -/
def splitPrecision : List Char → List Char × List Char
  | '.' :: rest =>
    match rest.takeWhile Text.isDigit with
    | [] => ([], '.' :: rest)
    | digits => ('.' :: digits, rest.dropWhile Text.isDigit)
  | text => ([], text)

/-- Drop a length: one or two of the letter `h` or of the letter `l`. -/
def skipLength : List Char → List Char
  | 'h' :: 'h' :: rest => rest
  | 'h' :: rest => rest
  | 'l' :: 'l' :: rest => rest
  | 'l' :: rest => rest
  | text => text

/-- The directive whose text follows a percent sign, and what comes after it. -/
def Directive.read? (text : List Char) : Option (Directive × List Char) :=
  let flags := text.takeWhile isFlag
  let afterFlags := text.dropWhile isFlag
  let width := afterFlags.takeWhile Text.isDigit
  let (precision, afterPrecision) := splitPrecision (afterFlags.dropWhile Text.isDigit)
  match skipLength afterPrecision with
  | letter :: rest =>
    (Conversion.ofLetter? letter).map fun conversion =>
      ({ layout := flags ++ width ++ precision, conversion }, rest)
  | [] => none

theorem splitPrecision_length_le (text : List Char) :
    (splitPrecision text).2.length ≤ text.length := by
  unfold splitPrecision
  split
  · split
    · exact Nat.le_refl _
    · exact Nat.le_succ_of_le (List.dropWhile_sublist _).length_le
  · exact Nat.le_refl _

theorem skipLength_length_le (text : List Char) :
    (skipLength text).length ≤ text.length := by
  unfold skipLength
  split
  · exact Nat.le_add_right _ 2
  · exact Nat.le_add_right _ 1
  · exact Nat.le_add_right _ 2
  · exact Nat.le_add_right _ 1
  · exact Nat.le_refl _

/-- Reading a directive uses up at least its conversion letter. -/
theorem Directive.read?_length_lt {text : List Char} {d : Directive} {rest : List Char}
    (h : Directive.read? text = some (d, rest)) : rest.length < text.length := by
  simp only [Directive.read?] at h
  split at h
  · rename_i letter tail heq
    obtain ⟨c, _, hc⟩ := Option.map_eq_some_iff.1 h
    have hrest : tail = rest := congrArg Prod.snd hc
    have h1 := skipLength_length_le
      (splitPrecision ((text.dropWhile isFlag).dropWhile Text.isDigit)).2
    have h2 := splitPrecision_length_le
      ((text.dropWhile isFlag).dropWhile Text.isDigit)
    have h3 := (List.dropWhile_sublist (l := text.dropWhile isFlag)
      Text.isDigit).length_le
    have h4 := (List.dropWhile_sublist (l := text) isFlag).length_le
    rw [heq] at h1
    simp only [List.length_cons] at h1
    rw [← hrest]
    omega
  · exact absurd h (by simp)

def pieces : List Char → List Piece
  | [] => []
  | c :: text =>
    if c = '%' then
      match _h : Directive.read? text with
      | some (d, rest) => .directive d :: pieces rest
      | none => .plain c :: pieces text
    else .plain c :: pieces text
termination_by text => text.length
decreasing_by
  · have := Directive.read?_length_lt _h
    simp only [List.length_cons]
    omega
  · simp
  · simp

end ToyC.Printf
