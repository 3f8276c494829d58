import ToyC.Decimal.Binary
import ToyC.Fault

/-!
Numbers in positional notation: integers, and doubles with a fixed count of decimal
places. Text that people read is limited to a number of digits; messages that need
no limit use the digits directly. The exact worth of a double is rounded to the
last place, a half to the even digit.
-/

namespace ToyC.Decimal

def digits (n : Nat) : List Char :=
  Nat.toDigits 10 n

def signed (n : Int) : List Char :=
  if n < 0 then '-' :: digits n.natAbs else digits n.natAbs

def numeral (n : Int) : Except Fault String :=
  let ds := digits n.natAbs
  if maxDigits < ds.length then .error .tooManyDigits
  else .ok (String.ofList (if n < 0 then '-' :: ds else ds))

/-- A natural number of units of `10 ^ -places` in positional notation. Without places no
point is written unless it is asked for. -/
def positional (units places : Nat) (point : Bool) : List Char :=
  let ds := digits units
  let padded := List.replicate (places + 1 - ds.length) '0' ++ ds
  let whole := padded.take (padded.length - places)
  let fraction := padded.drop (padded.length - places)
  if places = 0 then if point then whole ++ ['.'] else whole
  else whole ++ '.' :: fraction

/-- `significand · 2 ^ exponent` with a fixed count of places. -/
def fixed (significand : Nat) (exponent : Int) (places : Nat) (point : Bool) : List Char :=
  let (num, den) := scaled (significand * Nat.pow 10 places) 1 exponent
  positional (roundDiv num den) places point

end ToyC.Decimal
