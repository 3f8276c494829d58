import ToyC.Number.Text
import ToyC.Printf.Directive
import ToyC.Printf.Layout

/-!
Formatted output. The directives of a format take the values in turn; a
directive without a value prints nothing, and values without a directive have no
effect. A value that its conversion cannot show is printed in the plain form.
-/

namespace ToyC.Printf

open Decimal (digits)

/-- A layout for a conversion of a number, if it can be used; the precision of integers has a
smaller bound. -/
def numberLayout? (integer : Bool) (text : List Char) : Option Layout :=
  match Layout.read text with
  | .ok layout =>
    if integer && maxIntegerPrecision < layout.precision.getD 0 then none else some layout
  | .error _ => none

def upper (text : List Char) : List Char :=
  text.map Char.toUpper

/-- The character of a code point; one that is half of a surrogate pair shows as the replacement
character. -/
def character? (n : Int) : Option Char :=
  if n < 0 ∨ 0x10ffff < n then none
  else if 0xd800 ≤ n ∧ n ≤ 0xdfff then some '\ufffd'
  else some (Char.ofNat n.toNat)

/-- A number under a conversion for numbers, or nothing where the conversion cannot show it. -/
def number? (conversion : Conversion) (layout : List Char) (a : Number) : Option (List Char) :=
  match conversion with
  | .decimal => do
    let n ← a.truncate?
    let layout ← numberLayout? true layout
    if maxDigits < (digits n.natAbs).length then none
    else return layout.integer (n < 0) [] (digits n.natAbs)
  | .hexLower => do
    let n ← a.truncate?
    let layout ← numberLayout? true layout
    return layout.integer (n < 0) ['0', 'x'] (Nat.toDigits 16 n.natAbs)
  | .hexUpper => do
    let n ← a.truncate?
    let layout ← numberLayout? true layout
    return layout.integer (n < 0) ['0', 'X'] (upper (Nat.toDigits 16 n.natAbs))
  | .fixed => do
    let x ← a.toFloat.toOption
    let layout ← numberLayout? false layout
    return layout.double x
  | .character => do
    let n ← a.truncate?
    let c ← character? n
    return [c]
  | .string | .percent => none

/-- One value under a directive. Text is laid out by the text conversion alone; every other
conversion shows it as it is. -/
def Directive.show (d : Directive) (value : Value) : Except Fault (List Char) :=
  match d.conversion, value with
  | .string, .text s => do
    return (← Layout.read d.layout).text s.toList
  | .string, .number a => do
    let s ← a.plainText
    return (← Layout.read d.layout).text s.toList
  | _, .text s => .ok s.toList
  | conversion, .number a =>
    match number? conversion d.layout a with
    | some shown => .ok shown
    | none => do return (← a.plainText).toList

def fill : List Piece → List Value → Except Fault (List Char)
  | [], _ => .ok []
  | .plain c :: rest, values => do return c :: (← fill rest values)
  | .directive d :: rest, values =>
    if d.conversion = .percent then do return '%' :: (← fill rest values)
    else
      match values with
      -- a directive without a value shows nothing
      | [] => fill rest []
      | value :: more => do
        let shown ← d.show value
        return shown ++ (← fill rest more)

def format (fmt : String) (values : List Value) : Except Fault String := do
  return String.ofList (← fill (pieces fmt.toList) values)

end ToyC.Printf
