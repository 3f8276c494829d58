import ToyC.Number
import ToyC.Decimal.Numeral
import ToyC.Decimal.Shortest

/-!
Numbers as text. There are two forms. The exact form shows the kind of a number:
a double has the fewest digits that read back and always a point or an exponent.
The plain form, which printing uses, shows a double that is an integer as that
integer.
-/

namespace ToyC

/-- How a decimal is laid out: positional while the first digit stands in the given range,
with an exponent otherwise. -/
structure ExactStyle where
  leastPositional : Int
  mostPositional : Int
  exponentDigits : Nat

/-- Positional from a ten-thousandth up to sixteen digits before the point; exponents have
two digits at least. -/
def exactStyle : ExactStyle := ⟨-4, 15, 2⟩

def ExactStyle.layOut (style : ExactStyle) (d : Decimal.Scientific) : List Char :=
  let count : Int := d.digits.length
  if style.leastPositional ≤ d.exponent ∧ d.exponent ≤ style.mostPositional then
    if d.exponent < 0 then
      '0' :: '.' :: List.replicate (-d.exponent - 1).toNat '0' ++ d.digits
    else if count ≤ d.exponent + 1 then
      d.digits ++ List.replicate (d.exponent + 1 - count).toNat '0' ++ ['.', '0']
    else
      d.digits.take (d.exponent + 1).toNat ++ '.' :: d.digits.drop (d.exponent + 1).toNat
  else
    let size := Decimal.digits d.exponent.natAbs
    let sign := if d.exponent < 0 then '-' else '+'
    let mantissa :=
      match d.digits with
      | [] => []
      | [only] => [only]
      | first :: more => first :: '.' :: more
    mantissa ++ 'e' :: sign :: List.replicate (style.exponentDigits - size.length) '0' ++ size

def floatText (x : Float) : String :=
  match Decimal.Binary.ofFloat x with
  | .notANumber => "nan"
  | .infinite negative => if negative then "-inf" else "inf"
  | .finite negative significand exponent =>
    let size :=
      if significand = 0 then ['0', '.', '0']
      else exactStyle.layOut (Decimal.shortest significand exponent)
    String.ofList (if negative then '-' :: size else size)

namespace Number

def exactText : Number → Except Fault String
  | .int n => Decimal.numeral n
  | .float x => .ok (floatText x)

def plainText : Number → Except Fault String
  | .int n => Decimal.numeral n
  | .float x =>
    match integral? x with
    | some n => Decimal.numeral n
    | none => .ok (floatText x)

end Number

end ToyC
