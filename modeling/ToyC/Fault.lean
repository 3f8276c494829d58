/-!
Faults of number arithmetic and number text that no part of a run contains: they
end the run and reach its caller. Every other mistake of a program is absorbed
where it happens.
-/

namespace ToyC

inductive Fault where
  /-- an integer has more decimal digits than may be written -/
  | tooManyDigits
  /-- an integer is too large to become a double -/
  | beyondDouble
  /-- the remainder of an infinite number -/
  | undefinedRemainder
  /-- a field width that no text can have -/
  | widthTooBig
  /-- a precision that no text can have -/
  | precisionTooBig
  /-- a digit of another script where a text directive ends, and its index there -/
  | foreignDigit (digit : Char) (index : Nat)
  /-- a built-in function applied to too few values -/
  | tooFewValues (given : Nat)
  /-- a built-in function applied to too many values -/
  | tooManyValues
  deriving DecidableEq, Repr

/-- Whether a fault is a matter of range, or of a value that has no meaning. -/
inductive Fault.Kind where
  | range
  | value
  deriving DecidableEq, Repr

def Fault.kind : Fault → Fault.Kind
  | .beyondDouble => .range
  | _ => .value

/-- The most decimal digits that an integer is written with or read from. -/
def maxDigits : Nat := 4300

def Fault.message : Fault → String
  | .tooManyDigits =>
    "Exceeds the limit (" ++ toString maxDigits ++ " digits) for integer string conversion; " ++
      "use sys.set_int_max_str_digits() to increase the limit"
  | .beyondDouble => "int too large to convert to float"
  | .undefinedRemainder => "math domain error"
  | .widthTooBig => "width too big"
  | .precisionTooBig => "precision too big"
  | .foreignDigit digit index =>
    "unsupported format character '?' (0x" ++ String.ofList (Nat.toDigits 16 digit.toNat) ++
      ") at index " ++ toString index
  | .tooFewValues given =>
    "not enough values to unpack (expected 2, got " ++ toString given ++ ")"
  | .tooManyValues => "too many values to unpack (expected 2)"

end ToyC
