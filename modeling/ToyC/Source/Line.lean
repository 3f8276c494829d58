import ToyC.Source.Argument

/-!
Logical lines: one statement, header or brace per line. A line ends at a newline,
behind a semicolon or an opening brace, and on both sides of a closing brace,
where these stand outside literals and, newlines apart, outside parentheses. Lines
in braces form blocks; there braces are counted on the raw lines, also inside
literals.
-/

namespace ToyC.Source

open Text (consHead trim)

/-- The pieces of a text between the ends of logical lines, blanks included. -/
def linePieces : Cursor → List Char → List (List Char)
  | _, [] => [[]]
  | cursor, c :: rest =>
    if cursor.outside ∧ c = '\n' then [] :: linePieces cursor rest
    else if cursor.top ∧ c = '}' then [] :: ['}'] :: linePieces cursor rest
    else if cursor.top ∧ (c = ';' ∨ c = '{') then [c] :: linePieces cursor rest
    else consHead c (linePieces (cursor.step c) rest)

def splitLines (text : List Char) : List (List Char) :=
  ((linePieces {} text).map trim).filter (!·.isEmpty)

end ToyC.Source

namespace ToyC

def balance (line : List Char) : Int :=
  (line.count '{' : Int) - (line.count '}' : Int)

/-- The lines up to the one that brings the depth of braces to zero, and the lines behind that
one. If none does, all lines are taken. -/
def collectFrom : Int → List (List Char) → List (List Char) × List (List Char)
  | _, [] => ([], [])
  | depth, line :: rest =>
    if depth + balance line ≤ 0 then ([], rest)
    else
      let (body, behind) := collectFrom (depth + balance line) rest
      (line :: body, behind)

def collectBlock (lines : List (List Char)) : List (List Char) × List (List Char) :=
  collectFrom 1 lines

def linesSize : (lines : List (List Char)) → Nat
  | [] => 0
  | line :: lines => line.length + 1 + linesSize lines

@[simp] theorem linesSize_nil : linesSize [] = 0 := rfl

@[simp] theorem linesSize_cons (line : List Char) (lines : List (List Char)) :
    linesSize (line :: lines) = line.length + 1 + linesSize lines := rfl

theorem linesSize_le_of_sublist {a b : List (List Char)} (h : a.Sublist b) :
    linesSize a ≤ linesSize b := by
  induction h with
  | slnil => exact Nat.le_refl _
  | cons line _ ih => simp only [linesSize_cons]; omega
  | cons_cons line _ ih => simp only [linesSize_cons]; omega

theorem collectFrom_sublist (depth : Int) (lines : List (List Char)) :
    (collectFrom depth lines).1.Sublist lines := by
  induction lines generalizing depth with
  | nil => exact List.Sublist.slnil
  | cons line rest ih =>
    simp only [collectFrom]
    split
    · exact List.nil_sublist _
    · exact (ih _).cons_cons line

theorem collectFrom_suffix (depth : Int) (lines : List (List Char)) :
    (collectFrom depth lines).2 <:+ lines := by
  induction lines generalizing depth with
  | nil => exact List.suffix_refl _
  | cons line rest ih =>
    simp only [collectFrom]
    split
    · exact List.suffix_cons _ _
    · exact (ih _).trans (List.suffix_cons _ _)

theorem collectFrom_length_le (depth : Int) (lines : List (List Char)) :
    (collectFrom depth lines).2.length ≤ lines.length :=
  (collectFrom_suffix depth lines).sublist.length_le

end ToyC
