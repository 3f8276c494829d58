import ToyC.Number.Arith
import ToyC.Number.Power

/-!
When number arithmetic fails with a fault. Two integers never give rise to one. A double
makes both operands doubles, and an integer may lie beyond them; and an infinite number
has no remainder. A power absorbs all of this, but it names its operands where it fails,
and one of them may be too long to be written.
-/

namespace ToyC.Number

/-- Two operands that an operator has no answer for, and the fault that this is. -/
inductive Overwhelms : ArithOp → Number → Number → Fault → Prop
  | left {op : ArithOp} {n : Int} (h : Decimal.ofInt? n = none) (y : Float) :
      Overwhelms op (.int n) (.float y) .beyondDouble
  | right {op : ArithOp} {n : Int} (x : Float) (h : Decimal.ofInt? n = none) :
      Overwhelms op (.float x) (.int n) .beyondDouble
  | remainder {a b : Number} {x y : Float} {negative : Bool}
      (hdouble : (∃ x, a = .float x) ∨ ∃ y, b = .float y) (ha : a.toFloat = .ok x)
      (hb : b.toFloat = .ok y) (hx : Decimal.Binary.ofFloat x = .infinite negative)
      (hy : Decimal.Binary.ofFloat y ≠ .notANumber) : Overwhelms .rem a b .undefinedRemainder

/-- The only fault of a remainder is that of an infinite dividend. -/
theorem floatRem_eq_error_iff {x y : Float} {f : Fault} : floatRem x y = .error f ↔
    f = .undefinedRemainder ∧ (∃ negative, Decimal.Binary.ofFloat x = .infinite negative) ∧
      Decimal.Binary.ofFloat y ≠ .notANumber := by
  unfold floatRem
  match hx : Decimal.Binary.ofFloat x, hy : Decimal.Binary.ofFloat y with
  | .notANumber, _ => simp
  | .infinite negative, .notANumber | .finite negative m j, .notANumber => simp
  | .infinite negative, .infinite _ | .infinite negative, .finite .. => simp [eq_comm]
  | .finite negative m j, .infinite _ => simp
  | .finite negative m j, .finite _ n k =>
      dsimp only
      split <;> simp

/-- An integer beyond the doubles is the only number without a double. -/
theorem toFloat_eq_error {a : Number} {f : Fault} (h : a.toFloat = .error f) :
    f = .beyondDouble ∧ ∃ n, a = .int n ∧ Decimal.ofInt? n = none := by
  cases a with
  | float x => cases h
  | int n =>
      simp only [toFloat] at h
      split at h
      · cases h
      · rename_i hnone
        cases h
        exact ⟨rfl, n, rfl, hnone⟩

theorem toFloats_eq_ok {a b : Number} {x y : Float} (h : toFloats a b = .ok (x, y)) :
    a.toFloat = .ok x ∧ b.toFloat = .ok y := by
  unfold toFloats at h
  split at h
  · cases h
  · split at h
    · cases h
    · rename_i ha _ _ hb
      cases h
      exact ⟨ha, hb⟩

theorem toFloats_eq_fault {a b : Number} {f : Fault} (h : toFloats a b = .error (.fault f))
    (hdouble : (∃ x, a = .float x) ∨ ∃ y, b = .float y) (op : ArithOp) :
    Overwhelms op a b f := by
  unfold toFloats at h
  split at h
  · rename_i ha
    cases h
    obtain ⟨rfl, n, rfl, hn⟩ := toFloat_eq_error ha
    obtain ⟨x, hx⟩ | ⟨y, rfl⟩ := hdouble
    · cases hx
    · exact .left hn y
  · split at h
    · rename_i hb
      cases h
      obtain ⟨rfl, n, rfl, hn⟩ := toFloat_eq_error hb
      obtain ⟨x, rfl⟩ | ⟨y, hy⟩ := hdouble
      · exact .right x hn
      · cases hy
    · cases h

/-- Of two integers no fault arises. -/
theorem exists_double_of_combine {op : ArithOp} {a b : Number} {f : Fault}
    (h : combine op a b = .error (.fault f)) : (∃ x, a = .float x) ∨ ∃ y, b = .float y := by
  match a, b with
  | .float x, _ => exact .inl ⟨x, rfl⟩
  | _, .float y => exact .inr ⟨y, rfl⟩
  | .int m, .int n =>
      unfold combine at h
      split at h
      · cases h
      · cases op <;> cases h

/-- A fault arises only where the operands overwhelm the operator. -/
theorem overwhelms_of_combine {op : ArithOp} {a b : Number} {f : Fault}
    (h : combine op a b = .error (.fault f)) : Overwhelms op a b f := by
  have hdouble := exists_double_of_combine h
  unfold combine at h
  split at h
  · cases h
  · split at h
    · cases h
    · cases h
    · cases h
    · cases h
    · cases h
    · cases hfloats : toFloats a b with
      | error cause =>
          rw [hfloats] at h
          cases h
          exact toFloats_eq_fault hfloats hdouble op
      | ok pair =>
          obtain ⟨x, y⟩ := pair
          obtain ⟨ha, hb⟩ := toFloats_eq_ok hfloats
          rw [hfloats] at h
          simp only [Bind.bind, Except.bind] at h
          -- of the operators on doubles only the remainder can fail
          split at h
          · cases h
          · cases h
          · cases h
          · cases h
          · split at h
            · cases h
            · rename_i hfault
              cases h
              obtain ⟨rfl, ⟨negative, hx⟩, hy⟩ := floatRem_eq_error_iff.mp hfault
              exact .remainder hdouble ha hb hx hy

/-- Operands that overwhelm an operator have no result, unless a zero is divided by. -/
theorem combine_of_overwhelms {op : ArithOp} {a b : Number} {f : Fault} (h : Overwhelms op a b f)
    (hzero : ¬((op = .div ∨ op = .rem) ∧ b.isZero = true)) :
    combine op a b = .error (.fault f) := by
  unfold combine
  rw [if_neg hzero]
  cases h with
  | @left _ n hn y =>
      have hfloats : toFloats (.int n) (.float y) = .error (.fault .beyondDouble) := by
        simp only [toFloats, toFloat, hn]
      cases op <;> simp only [hfloats] <;> rfl
  | @right _ n x hn =>
      have hfloats : toFloats (.float x) (.int n) = .error (.fault .beyondDouble) := by
        simp only [toFloats, toFloat, hn]
      cases op <;> simp only [hfloats] <;> rfl
  | @remainder _ _ x y negative hdouble ha hb hx hy =>
      have hfloats : toFloats a b = .ok (x, y) := by simp only [toFloats, ha, hb]
      have hfault : floatRem x y = .error .undefinedRemainder :=
        floatRem_eq_error_iff.mpr ⟨rfl, ⟨negative, hx⟩, hy⟩
      obtain ⟨z, rfl⟩ | ⟨z, rfl⟩ := hdouble
      · simp only [hfloats, Bind.bind, Except.bind, hfault]
        rfl
      · cases a <;> (simp only [hfloats, Bind.bind, Except.bind, hfault]; rfl)

/-- When arithmetic on numbers fails with a fault. -/
theorem combine_eq_fault_iff {op : ArithOp} {a b : Number} {f : Fault} :
    combine op a b = .error (.fault f) ↔
      Overwhelms op a b f ∧ ¬((op = .div ∨ op = .rem) ∧ b.isZero = true) := by
  refine ⟨fun h => ⟨overwhelms_of_combine h, fun hzero => ?_⟩,
    fun h => combine_of_overwhelms h.1 h.2⟩
  unfold combine at h
  rw [if_pos hzero] at h
  cases h

/-- An integer with more digits than may be written. -/
def IsTooLong (a : Number) : Prop :=
  ∃ n, a = .int n ∧ maxDigits < (Decimal.digits n.natAbs).length

theorem exactText_eq_error {a : Number} {f : Fault} (h : a.exactText = .error f) :
    f = .tooManyDigits ∧ a.IsTooLong := by
  cases a with
  | float x => cases h
  | int n =>
      simp only [exactText, Decimal.numeral] at h
      split at h
      · rename_i hlong
        cases h
        exact ⟨rfl, n, rfl, hlong⟩
      · cases h

/-- A power that fails names its operands, and one of them may be too long for that. -/
theorem power_eq_fault {base exponent : Number} {f : Fault}
    (h : power base exponent = .error (.fault f)) :
    f = .tooManyDigits ∧ (base.IsTooLong ∨ exponent.IsTooLong) := by
  unfold power at h
  dsimp only at h
  split at h
  · cases h
  · split at h
    · cases h
    · rename_i hbase
      cases h
      exact (exactText_eq_error hbase).imp_right .inl
    · rename_i hexponent _
      cases h
      exact (exactText_eq_error hexponent).imp_right .inr

end ToyC.Number
