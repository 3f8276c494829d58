import ToyC.Fault
import ToyC.Decimal.Numeral
import ToyC.Printf.Directive

/-!
The layout of one printed value: flags, field width and precision, read from the
text between the percent sign and the conversion letter, and the rules by which
they shape integers, doubles and text. A field is filled however wide it is: the
host's memory is taken as unlimited.
-/

namespace ToyC.Printf

structure Layout where
  /-- the value stands at the left end of its field -/
  left : Bool := false
  /-- numbers that are not negative show a plus sign -/
  plus : Bool := false
  /-- numbers that are not negative show a blank in place of the sign -/
  space : Bool := false
  /-- hexadecimal shows its base, a double always shows its point -/
  alternate : Bool := false
  /-- numbers fill their field with zeros -/
  zero : Bool := false
  width : Option Nat := none
  precision : Option Nat := none
  deriving DecidableEq, Repr

def maxWidth : Nat := Nat.pow 2 63 - 1
def maxPrecision : Nat := Nat.pow 2 31 - 1

/-- The largest precision of an integer, which leaves room for a sign and a base. -/
def maxIntegerPrecision : Nat := maxPrecision - 3

/-- A decimal digit of ASCII: widths and precisions are written with these alone. -/
def isPlainDigit (c : Char) : Bool :=
  '0' ≤ c && c ≤ '9'

/-- The layout that a text writes: flags, a width, and a point with a precision. A digit of
another script ends the text where it stands, and is at fault; `index` counts from the percent
sign. -/
def Layout.read (text : List Char) : Except Fault Layout := do
  let flags := text.takeWhile isFlag
  let afterFlags := text.dropWhile isFlag
  let widthDigits := afterFlags.takeWhile isPlainDigit
  let afterWidth := afterFlags.dropWhile isPlainDigit
  if maxWidth < Text.digitsValue widthDigits then throw .widthTooBig
  let layout : Layout :=
    { left := flags.contains '-'
      plus := flags.contains '+'
      space := flags.contains ' '
      alternate := flags.contains '#'
      zero := flags.contains '0'
      width := if widthDigits.isEmpty then none else some (Text.digitsValue widthDigits) }
  match afterWidth with
  | [] => return layout
  | '.' :: afterPoint =>
    let precisionDigits := afterPoint.takeWhile isPlainDigit
    if maxPrecision < Text.digitsValue precisionDigits then throw .precisionTooBig
    match afterPoint.dropWhile isPlainDigit with
    | [] => return { layout with precision := some (Text.digitsValue precisionDigits) }
    | c :: rest => throw (.foreignDigit c (text.length - rest.length))
  | c :: rest => throw (.foreignDigit c (text.length - rest.length))

def Layout.sign (layout : Layout) (negative : Bool) : List Char :=
  if negative then ['-']
  else if layout.plus then ['+']
  else if layout.space then [' ']
  else []

/-- A number in its field. Zeros that fill it stand between the sign and base and the digits,
blanks in front of everything; at the left end of its field a number has blanks behind it. -/
def Layout.placeNumber (layout : Layout) (sign base digits : List Char) : List Char :=
  let room := layout.width.getD 0 - (sign.length + base.length + digits.length)
  if layout.left then sign ++ base ++ digits ++ List.replicate room ' '
  else if layout.zero then sign ++ base ++ List.replicate room '0' ++ digits
  else List.replicate room ' ' ++ sign ++ base ++ digits

/-- An integer, given by its sign and its digits in some base. The precision is the least count
of digits. -/
def Layout.integer (layout : Layout) (negative : Bool) (base digits : List Char) : List Char :=
  let padded := List.replicate (layout.precision.getD 0 - digits.length) '0' ++ digits
  layout.placeNumber (layout.sign negative) (if layout.alternate then base else []) padded

def defaultPlaces : Nat := 6

/-- A double with a fixed count of places. Infinities and no-number are laid out like digits. -/
def Layout.double (layout : Layout) (x : Float) : List Char :=
  let (negative, digits) : Bool × List Char :=
    match Decimal.Binary.ofFloat x with
    | .notANumber => (false, ['n', 'a', 'n'])
    | .infinite negative => (negative, ['i', 'n', 'f'])
    | .finite negative significand exponent =>
      (negative, Decimal.fixed significand exponent (layout.precision.getD defaultPlaces)
        layout.alternate)
  layout.placeNumber (layout.sign negative) [] digits

/-- Text in its field. The precision is the largest count of characters; of the flags only the
one for the left end has a meaning. -/
def Layout.text (layout : Layout) (text : List Char) : List Char :=
  let shown :=
    match layout.precision with
    | some count => text.take count
    | none => text
  let room := layout.width.getD 0 - shown.length
  if layout.left then shown ++ List.replicate room ' '
  else List.replicate room ' ' ++ shown

end ToyC.Printf
