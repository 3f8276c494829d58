import ToyC.Printf.Format
import ToyC.Proofs.Number.Fault
import ToyC.Run.Exec

/-!
Where faults come from. Arithmetic on numbers fails where an integer has no double
or a remainder has no meaning; writing text fails where a number has too many
digits or a layout cannot be used. The faults of a built-in function that is given
the wrong number of values do not arise, because calls compare the count first.
-/

namespace ToyC

/-- What gives rise to a fault. -/
inductive Fault.Origin where
  | arithmetic
  | formatting
  /-- a built-in function is applied to the wrong number of values -/
  | application
  deriving DecidableEq, Repr

def Fault.origin : Fault → Fault.Origin
  | .beyondDouble | .undefinedRemainder => .arithmetic
  | .tooManyDigits | .widthTooBig | .precisionTooBig | .foreignDigit .. => .formatting
  | .tooFewValues _ | .tooManyValues => .application

/-- Number arithmetic or formatting gives rise to a fault. -/
def Fault.IsNumeric (f : Fault) : Prop :=
  f.origin = .arithmetic ∨ f.origin = .formatting

/-- A fault of two steps is one of the first step, or of the second. -/
theorem Fault.of_bind {α β : Type} {first : Except Fault α} {next : α → Except Fault β}
    {f : Fault} (h : first >>= next = .error f) :
    first = .error f ∨ ∃ a, first = .ok a ∧ next a = .error f := by
  cases first with
  | error cause =>
      cases h
      exact Or.inl rfl
  | ok a => exact Or.inr ⟨a, rfl, h⟩

/-! ### Arithmetic -/

namespace Number

theorem combine_fault {op : ArithOp} {a b : Number} {f : Fault}
    (h : combine op a b = .error (.fault f)) : f.origin = .arithmetic := by
  cases overwhelms_of_combine h <;> rfl

theorem operate_fault {op : BinaryOp} {a b : Number} {f : Fault}
    (h : operate op a b = .error (.fault f)) : f.origin = .arithmetic := by
  cases op with
  | or => cases h
  | and => cases h
  | compare test => cases h
  | arith op => exact combine_fault h

/-! ### Numbers as text -/

theorem numeral_fault {n : Int} {f : Fault} (h : Decimal.numeral n = .error f) :
    f.origin = .formatting := by
  unfold Decimal.numeral at h
  dsimp only at h
  split at h
  · cases h
    rfl
  · cases h

theorem plainText_fault {a : Number} {f : Fault} (h : a.plainText = .error f) :
    f.origin = .formatting := by
  cases a with
  | int n => exact numeral_fault h
  | float x =>
      unfold plainText at h
      dsimp only at h
      split at h
      · exact numeral_fault h
      · cases h

/-- Raising to a power absorbs what its arithmetic cannot do, and only fails to write the operands
into the message. -/
theorem power_fault {base exponent : Number} {f : Fault}
    (h : power base exponent = .error (.fault f)) : f.origin = .formatting := by
  obtain ⟨rfl, -⟩ := power_eq_fault h
  rfl

end Number

/-- Applied to as many values as it takes, a built-in function gives no fault of application. -/
theorem Builtin.applyNumbers_fault {g : Builtin} {values : List Number} {f : Fault}
    (hcount : values.length = g.arity) (h : g.applyNumbers values = .error (.fault f)) :
    f.origin = .formatting := by
  cases g with
  | pow =>
      match values, hcount with
      | [base, exponent], _ => exact Number.power_fault h

/-! ### Formatted text -/

namespace Printf

theorem Layout.read_fault {text : List Char} {f : Fault} (h : Layout.read text = .error f) :
    f.origin = .formatting := by
  unfold Layout.read at h
  dsimp only at h
  split at h
  · cases h
    rfl
  · split at h
    · cases h
    · split at h
      · cases h
        rfl
      · split at h
        · cases h
        · cases h
          rfl
    · cases h
      rfl

theorem Directive.show_fault {d : Directive} {value : Value} {f : Fault}
    (h : d.show value = .error f) : f.origin = .formatting := by
  have hlayout : ∀ shown : Layout → List Char,
      (do return shown (← Layout.read d.layout)) = Except.error f → f.origin = .formatting := by
    intro shown hshown
    obtain hread | ⟨layout, -, hdone⟩ := Fault.of_bind hshown
    · exact Layout.read_fault hread
    · cases hdone
  unfold Directive.show at h
  split at h
  · exact hlayout _ h
  · obtain htext | ⟨s, -, hshown⟩ := Fault.of_bind h
    · exact Number.plainText_fault htext
    · exact hlayout _ hshown
  · cases h
  · split at h
    · cases h
    · obtain htext | ⟨s, -, hdone⟩ := Fault.of_bind h
      · exact Number.plainText_fault htext
      · cases hdone

theorem fill_fault {pieces : List Piece} {values : List Value} {f : Fault}
    (h : fill pieces values = .error f) : f.origin = .formatting := by
  induction pieces generalizing values with
  | nil => cases h
  | cons piece rest ih =>
      cases piece with
      | plain c =>
          obtain hrest | ⟨text, -, hdone⟩ := Fault.of_bind h
          · exact ih hrest
          · cases hdone
      | directive d =>
          unfold fill at h
          split at h
          · obtain hrest | ⟨text, -, hdone⟩ := Fault.of_bind h
            · exact ih hrest
            · cases hdone
          · split at h
            · exact ih h
            · obtain hshow | ⟨shown, -, hmore⟩ := Fault.of_bind h
              · exact Directive.show_fault hshow
              · obtain hrest | ⟨text, -, hdone⟩ := Fault.of_bind hmore
                · exact ih hrest
                · cases hdone

theorem format_fault {fmt : String} {values : List Value} {f : Fault}
    (h : format fmt values = .error f) : f.origin = .formatting := by
  obtain hfill | ⟨text, -, hdone⟩ := Fault.of_bind h
  · exact fill_fault hfill
  · cases hdone

end Printf

theorem runawayMessage_fault {limit : Int} {f : Fault} (h : runawayMessage limit = .error f) :
    f.origin = .formatting := by
  obtain hsize | ⟨size, -, hdone⟩ := Fault.of_bind h
  · exact Number.numeral_fault hsize
  · cases hdone

end ToyC
