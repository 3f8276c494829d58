import ToyC.Text.Blank
import ToyC.Text.Word
import ToyC.Source.Argument
import ToyC.Source.Escape

/-!
The shape of a logical line: which statement it writes, with the texts of its
parts, before any expression is read. The shapes overlap, so they are tried in a
fixed order. A part that is followed by blanks and a semicolon is as short as it
can be, and no part goes past a newline.
-/

namespace ToyC

open Text (isBlank isWord skipBlanks)

inductive ChangeShape where
  | set (value : List Char)
  /-- an operator and its equal sign -/
  | update (op : Char) (value : List Char)
  | increment
  | decrement

inductive Shape where
  | returns (value : Option (List Char))
  | prints (fmt : List Char) (args : List (List Char))
  | declares (type : List Char) (declarators : List (List Char × Option (List Char)))
  | assigns (target : List Char) (change : ChangeShape)
  | evaluates (call : List Char)
  | breaks
  | continues
  /-- no statement, and the texts of the parts that were recognised before it failed -/
  | unrecognised (values : List (List Char))

namespace Shape

/-- Blanks, then a semicolon or none, then the end of the line. A newline may follow the
semicolon. -/
def endsStatement (text : List Char) : Bool :=
  match skipBlanks text with
  | [] | [';'] | [';', '\n'] => true
  | _ => false

/-- The shortest part that a line can end behind. -/
def shortestPart? : List Char → Option (List Char)
  | [] => some []
  | c :: rest =>
    if endsStatement (c :: rest) then some []
    else if c = '\n' then none
    else (shortestPart? rest).map (c :: ·)

/-- A part that is not empty, behind at least the given count of blanks. Where nothing but
blanks is left, the last of them that is no newline is the part. -/
def partAfterBlanks? (least : Nat) (text : List Char) : Option (List Char) :=
  let blanks := text.takeWhile isBlank
  if blanks.length < least then none
  else
    match skipBlanks text with
    | [] => ((blanks.drop least).reverse.find? (· ≠ '\n')).map ([·])
    | c :: rest => (shortestPart? rest).map (c :: ·)

def after? (word : List Char) (text : List Char) : Option (List Char) :=
  if word.isPrefixOf text then some (text.drop word.length) else none

/-- The text behind a word that the text starts with and that ends there. -/
def afterWord? (word : List Char) (text : List Char) : Option (List Char) :=
  match after? word text with
  | some [] => some []
  | some (c :: rest) => if isWord c then none else some (c :: rest)
  | none => none

def ident? : List Char → Option (List Char × List Char)
  | [] => none
  | c :: rest =>
    if Text.isIdentStart c then some (c :: rest.takeWhile isWord, rest.dropWhile isWord)
    else none

/-- The part up to the last closing parenthesis that a line can end behind. -/
def upToLastParen? : List Char → Option (List Char)
  | [] => none
  | c :: rest =>
    if c = '\n' then none
    else
      match upToLastParen? rest with
      | some inside => some (c :: inside)
      | none => if c = ')' ∧ endsStatement rest then some [] else none

def parenthesised? (text : List Char) : Option (List Char) :=
  match skipBlanks text with
  | '(' :: rest => upToLastParen? rest
  | _ => none

/-! ### Types -/

def typeModifiers : List (List Char) :=
  ["unsigned".toList, "signed".toList, "long".toList, "short".toList]

def typeBases : List (List Char) :=
  ["int".toList, "float".toList, "double".toList, "char".toList, "long".toList, "short".toList,
    "void".toList, "bool".toList, "unsigned".toList]

def wordAndBlanks? (word text : List Char) : Option (List Char × List Char) :=
  match after? word text with
  | some (c :: rest) =>
    if isBlank c then some (word ++ c :: rest.takeWhile isBlank, skipBlanks rest) else none
  | _ => none

theorem wordAndBlanks?_length_lt {word text taken rest : List Char}
    (h : wordAndBlanks? word text = some (taken, rest)) : rest.length < text.length := by
  simp only [wordAndBlanks?, after?] at h
  split at h
  · rename_i c tail heq
    split at heq
    · split at h
      · cases h
        have h1 := Text.skipBlanks_length_le tail
        have h2 : (c :: tail).length ≤ text.length := by
          rw [← Option.some.inj heq]
          exact (List.drop_sublist _ _).length_le
        simp only [List.length_cons] at h2
        omega
      · cases h
    · cases heq
  · cases h

/-- The types that a text can start with, and what follows each, most modifiers first. Each word
of a type may stand alone as one. -/
def typeReadings (taken text : List Char) : List (List Char × List Char) :=
  let base :=
    match typeBases.findSome? fun word => (after? word text).map (word, ·) with
    | some (word, rest) => [(taken ++ word, rest)]
    | none => []
  match _h : typeModifiers.findSome? (wordAndBlanks? · text) with
  | some (modifier, rest) => typeReadings (taken ++ modifier) rest ++ base
  | none => base
termination_by text.length
decreasing_by
  obtain ⟨_, _, h⟩ := List.exists_of_findSome?_eq_some _h
  exact wordAndBlanks?_length_lt h

def types (text : List Char) : List (List Char × List Char) :=
  match wordAndBlanks? "const".toList text with
  | some (word, rest) => typeReadings word rest
  | none => typeReadings [] text

/-! ### The shapes -/

def returns? (line : List Char) : Option Shape :=
  (afterWord? "return".toList line).bind fun rest =>
    (shortestPart? (skipBlanks rest)).map fun value =>
      .returns (if value.isEmpty then none else some value)

def format? (text : List Char) : Option (List Char) :=
  match text with
  | '"' :: rest =>
    match rest.reverse with
    | '"' :: inside => some (Source.unescape inside.reverse)
    | _ => none
  | _ => none

def prints? (line : List Char) : Option Shape :=
  ((after? "printf".toList line).bind parenthesised?).map fun inside =>
    match Source.splitArguments ',' inside with
    | [] => .unrecognised []
    | first :: args =>
      match format? first with
      | some fmt => .prints fmt args
      | none => .unrecognised []

def declarator? (text : List Char) : Option (List Char × Option (List Char)) :=
  (ident? text).bind fun (name, rest) =>
    match skipBlanks rest with
    | [] => some (name, none)
    | '=' :: behind =>
      let value := skipBlanks behind
      if value = [] ∨ value.contains '\n' then none else some (name, some value)
    | _ => none

/-- The declarators of a list up to the first that is none, and whether all of them are. -/
def declarators : List (List Char) → List (List Char × Option (List Char)) × Bool
  | [] => ([], true)
  | part :: rest =>
    match declarator? part with
    | none => ([], false)
    | some d =>
      let (more, complete) := declarators rest
      (d :: more, complete)

def declares? (line : List Char) : Option Shape :=
  (types line).findSome? fun (type, rest) =>
    (partAfterBlanks? 1 rest).map fun part =>
      let (ds, complete) := declarators (Source.splitArguments ',' part)
      -- the values in front of a part that is no declarator have been read by then
      if complete ∧ ds ≠ [] then .declares type ds
      else .unrecognised (ds.filterMap (·.2))

def change? (text : List Char) : Option ChangeShape :=
  match text with
  | '=' :: rest => if rest.head? = some '=' then none else (partAfterBlanks? 0 rest).map .set
  | op :: '=' :: rest =>
    if op ∈ ['-', '+', '*', '/', '%'] ∧ rest.head? ≠ some '=' then
      (partAfterBlanks? 0 rest).map (.update op)
    else none
  | _ => none

def assigns? (line : List Char) : Option Shape :=
  (ident? line).bind fun (target, rest) => (change? (skipBlanks rest)).map (.assigns target)

def twin? : List Char → Option (ChangeShape × List Char)
  | '+' :: '+' :: rest => some (.increment, rest)
  | '-' :: '-' :: rest => some (.decrement, rest)
  | _ => none

/-- An increment or decrement; the sign stands behind or in front of the name. -/
def counts? (line : List Char) : Option Shape :=
  match ident? line with
  | some (target, rest) =>
    (twin? (skipBlanks rest)).bind fun (change, behind) =>
      if endsStatement behind then some (.assigns target change) else none
  | none =>
    (twin? line).bind fun (change, rest) =>
      (ident? (skipBlanks rest)).bind fun (target, behind) =>
        if endsStatement behind then some (.assigns target change) else none

def word? (word : List Char) (shape : Shape) (line : List Char) : Option Shape :=
  (after? word line).bind fun rest => if endsStatement rest then some shape else none

/-- A call whose value is not used. -/
def evaluates? (line : List Char) : Option Shape :=
  (ident? line).bind fun (_, rest) =>
    (parenthesised? rest).map fun _ =>
      .evaluates (Text.dropEndWhile (· == ';') (Text.trimEnd line))

/-- The shape of a line: the first that fits. -/
def read (line : List Char) : Shape :=
  -- returning a value in parentheses and printing have the shape of a call too
  (returns? line <|> prints? line <|> declares? line <|> assigns? line <|> counts? line <|>
    word? "break".toList .breaks line <|> word? "continue".toList .continues line <|>
    evaluates? line).getD (.unrecognised [])

end Shape

end ToyC
