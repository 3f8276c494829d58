import ToyC.Text.Blank

/-!
Where a scan of program text stands: inside a string or character literal, or at
some depth of parentheses. Text is divided only where the cursor is at the top, so
no literal and no parenthesised text is ever cut. Lists are divided so at their
separators: arguments, declarators, and the clauses of a loop header.
-/

namespace ToyC.Source

open Text (consHead trim)

structure Cursor where
  /-- the quote of the literal that is open -/
  quote : Option Char := none
  /-- inside a literal, whether the next character is escaped -/
  escaped : Bool := false
  /-- how many parentheses outside literals are open -/
  depth : Nat := 0
  deriving DecidableEq, Repr

def isQuote (c : Char) : Bool :=
  c == '"' || c == '\''

namespace Cursor

/-- The cursor after one more character. A closing parenthesis without an opening one has no
effect. -/
def step (cursor : Cursor) (c : Char) : Cursor :=
  match cursor.quote with
  | some quote =>
    if cursor.escaped then { cursor with escaped := false }
    else if c = '\\' then { cursor with escaped := true }
    else if c = quote then { cursor with quote := none }
    else cursor
  | none =>
    if isQuote c then { cursor with quote := some c }
    else if c = '(' then { cursor with depth := cursor.depth + 1 }
    else if c = ')' then { cursor with depth := cursor.depth - 1 }
    else cursor

def outside (cursor : Cursor) : Bool :=
  cursor.quote.isNone

def top (cursor : Cursor) : Bool :=
  cursor.outside && cursor.depth == 0

end Cursor

/-- The pieces between the separators, blanks included. A quote or an opening parenthesis never
separates. -/
def argumentPieces (separator : Char) : Cursor → List Char → List (List Char)
  | _, [] => [[]]
  | cursor, c :: rest =>
    if cursor.top ∧ c = separator ∧ ¬isQuote c ∧ c ≠ '(' then
      [] :: argumentPieces separator cursor rest
    else consHead c (argumentPieces separator (cursor.step c) rest)

/-- The parts between the separators, trimmed: one more than there are separators. -/
def splitParts (separator : Char) (text : List Char) : List (List Char) :=
  (argumentPieces separator {} text).map trim

def splitArguments (separator : Char) (text : List Char) : List (List Char) :=
  (splitParts separator text).filter (!·.isEmpty)

end ToyC.Source
