import ToyC.Fault
import ToyC.Text.Blank
import ToyC.Text.Word

/-!
Numbers as values of options. Blanks around a number, a sign in front of it and
single underscores between its digits are allowed, and digits of every script.
-/

namespace ToyC.Cli

open Text (isDigit digitsValue)

/-- Split off a sign; whether it is a minus sign. -/
def splitSign : List Char → Bool × List Char
  | '-' :: rest => (true, rest)
  | '+' :: rest => (false, rest)
  | text => (false, text)

/-- A run of digits without the underscores between two of them, and what follows it. -/
def digitRun : List Char → List Char × List Char
  | [] => ([], [])
  | c :: '_' :: d :: rest =>
    if isDigit c && isDigit d then
      let (digits, behind) := digitRun (d :: rest)
      (c :: digits, behind)
    else if isDigit c then ([c], '_' :: d :: rest)
    else ([], c :: '_' :: d :: rest)
  | c :: rest =>
    if isDigit c then
      let (digits, behind) := digitRun rest
      (c :: digits, behind)
    else ([], c :: rest)

def readInt? (text : String) : Option Int :=
  let (negative, unsigned) := splitSign (Text.trim text.toList)
  match digitRun unsigned with
  | (digits, []) =>
    if digits = [] ∨ maxDigits < digits.length then none
    else
      let size : Int := digitsValue digits
      some (if negative then -size else size)
  | _ => none

/-- Whether a text is an exponent, or nothing. -/
def isExponent : List Char → Bool
  | [] => true
  | e :: rest =>
    match digitRun (splitSign rest).2 with
    | (digits, []) => (e == 'e' || e == 'E') && !digits.isEmpty
    | _ => false

def isReal (text : String) : Bool :=
  let unsigned := (splitSign (Text.trim text.toList)).2
  let lower := String.ofList (unsigned.map Char.toLower)
  if lower = "inf" ∨ lower = "infinity" ∨ lower = "nan" then true
  else
    match digitRun unsigned with
    | (whole, '.' :: behind) =>
      let (fraction, rest) := digitRun behind
      !(whole ++ fraction).isEmpty && isExponent rest
    | (whole, rest) => !whole.isEmpty && isExponent rest

end ToyC.Cli
