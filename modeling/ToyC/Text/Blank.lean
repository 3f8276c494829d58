/-!
Blank characters and the operations that drop them. The class is the wide one:
ASCII white space, the four separators before the space, and the spaces and
line breaks of Unicode.
-/

namespace ToyC.Text

def isBlank (c : Char) : Bool :=
  let n := c.toNat
  (9 ≤ n && n ≤ 13) || (28 ≤ n && n ≤ 32) || n == 0x85 || n == 0xa0 || n == 0x1680 ||
    (0x2000 ≤ n && n ≤ 0x200a) || n == 0x2028 || n == 0x2029 || n == 0x202f ||
    n == 0x205f || n == 0x3000

def skipBlanks (text : List Char) : List Char :=
  text.dropWhile isBlank

def dropEndWhile (p : Char → Bool) (text : List Char) : List Char :=
  text.foldr (fun c rest => if rest.isEmpty && p c then [] else c :: rest) []

def trimEnd (text : List Char) : List Char :=
  dropEndWhile isBlank text

def trim (text : List Char) : List Char :=
  trimEnd (skipBlanks text)

def consHead (c : Char) : List (List Char) → List (List Char)
  | [] => [[c]]
  | piece :: pieces => (c :: piece) :: pieces

/-- The pieces between the places where a separator stands: one more than there are
separators. -/
def splitOn (separator : Char) : List Char → List (List Char)
  | [] => [[]]
  | c :: rest =>
    if c = separator then [] :: splitOn separator rest
    else consHead c (splitOn separator rest)

/-- The maximal runs of characters that are not blank. -/
def words (text : List Char) : List (List Char) :=
  (go text).filter (!·.isEmpty)
where
  go : List Char → List (List Char)
    | [] => [[]]
    | c :: rest => if isBlank c then [] :: go rest else consHead c (go rest)

theorem skipBlanks_length_le (text : List Char) : (skipBlanks text).length ≤ text.length :=
  (List.dropWhile_sublist _).length_le

/-- What is left begins with no blank. -/
theorem not_isBlank_of_skipBlanks_eq_cons {text rest : List Char} {c : Char}
    (h : skipBlanks text = c :: rest) : isBlank c = false := by
  have hc := List.head?_dropWhile_not isBlank text
  rw [skipBlanks] at h
  simpa [h] using hc

theorem dropEndWhile_length_le (p : Char → Bool) (text : List Char) :
    (dropEndWhile p text).length ≤ text.length := by
  induction text with
  | nil => exact Nat.le_refl _
  | cons c rest ih =>
    simp only [dropEndWhile, List.foldr_cons] at ih ⊢
    split
    · exact Nat.zero_le _
    · exact Nat.succ_le_succ ih

theorem trim_length_le (text : List Char) : (trim text).length ≤ text.length :=
  Nat.le_trans (dropEndWhile_length_le _ _) (skipBlanks_length_le _)

end ToyC.Text
