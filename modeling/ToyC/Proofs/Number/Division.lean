import Mathlib.Data.Rat.Floor
import ToyC.Number.Arith

/-!
Operators on two integers. Each gives an integer, but for division and remainder by
zero, which fail. The quotient of the sizes with the sign test is the exact quotient
rounded toward zero, and the remainder is what the rounding leaves, so it is smaller
than the divisor and has the sign of the dividend.
-/

namespace ToyC

/-- Whether a comparison holds between two integers. -/
def Comparison.Holds (m n : Int) : Comparison → Prop
  | .eq => m = n
  | .ne => m ≠ n
  | .lt => m < n
  | .le => m ≤ n
  | .gt => n < m
  | .ge => n ≤ m

instance (m n : Int) (test : Comparison) : Decidable (test.Holds m n) :=
  match test with
  | .eq => inferInstanceAs (Decidable (m = n))
  | .ne => inferInstanceAs (Decidable (m ≠ n))
  | .lt => inferInstanceAs (Decidable (m < n))
  | .le => inferInstanceAs (Decidable (m ≤ n))
  | .gt => inferInstanceAs (Decidable (n < m))
  | .ge => inferInstanceAs (Decidable (n ≤ m))

/-- The integer that an operator makes of two integers, if the operator is no logical one and
cannot fail. -/
def BinaryOp.exact? (m n : Int) : BinaryOp → Option Int
  | .arith .add => some (m + n)
  | .arith .sub => some (m - n)
  | .arith .mul => some (m * n)
  | .compare test => some (if test.Holds m n then 1 else 0)
  | _ => none

namespace Number

/-! ### Comparisons and exact operators -/

theorem compareBy_int_iff {test : Comparison} {m n : Int} :
    compareBy test (.int m) (.int n) = true ↔ test.Holds m n := by
  have horder : order? (.int m) (.int n) = some (compare m n) := rfl
  cases test with
  | eq => simp [compareBy, horder, Comparison.Holds]
  | ne => simp [compareBy, horder, Comparison.Holds]
  | lt => simp [compareBy, horder, Comparison.Holds, Int.compare_eq_lt]
  | gt => simp [compareBy, horder, Comparison.Holds, Int.compare_eq_gt]
  | le => simp [compareBy, horder, Comparison.Holds, Int.compare_ne_gt]
  | ge => simp [compareBy, horder, Comparison.Holds, Int.compare_ne_lt]

theorem operate_compare_int (test : Comparison) (m n : Int) :
    operate (.compare test) (.int m) (.int n) =
      .ok (.int (if test.Holds m n then 1 else 0)) := by
  simp only [operate, ofBool, compareBy_int_iff]

/-- An operator that cannot fail gives its integer. -/
theorem operate_of_exact? {op : BinaryOp} {m n k : Int} (h : op.exact? m n = some k) :
    operate op (.int m) (.int n) = .ok (.int k) := by
  cases op with
  | or => cases h
  | and => cases h
  | compare test =>
      cases h
      exact operate_compare_int test m n
  | arith op =>
      cases op with
      | add => cases h; rfl
      | sub => cases h; rfl
      | mul => cases h; rfl
      | div => cases h
      | rem => cases h

/-! ### The quotient of the sizes -/

/-- A function of two integers that changes its sign with either of them. -/
structure ChangesSign (f : ℤ → ℤ → ℤ) : Prop where
  left (a b : ℤ) : f (-a) b = -f a b
  right (a b : ℤ) : f a (-b) = -f a b

/-- What such functions give is decided by the sizes. -/
theorem ChangesSign.eq_of_sizes {f g : ℤ → ℤ → ℤ} (hf : ChangesSign f) (hg : ChangesSign g)
    (hsizes : ∀ m n : ℕ, f m n = g m n) (a b : ℤ) : f a b = g a b := by
  obtain ⟨m, rfl | rfl⟩ := a.eq_nat_or_neg
  · obtain ⟨n, rfl | rfl⟩ := b.eq_nat_or_neg
    · exact hsizes m n
    · rw [hf.right, hg.right, hsizes]
  · obtain ⟨n, rfl | rfl⟩ := b.eq_nat_or_neg
    · rw [hf.left, hg.left, hsizes]
    · rw [hf.left, hg.left, hf.right, hg.right, hsizes]

theorem truncDiv_natCast (m n : ℕ) : truncDiv m n = (m : ℤ).tdiv n := by
  have hsigns : 0 ≤ (m : ℤ) ↔ 0 ≤ (n : ℤ) :=
    iff_of_true (Int.natCast_nonneg m) (Int.natCast_nonneg n)
  rw [truncDiv, if_pos hsigns, Int.natAbs_natCast, Int.natAbs_natCast, Int.ofNat_tdiv]

/-- Where the sign test is turned over and the sizes stay, the quotient changes its sign. -/
theorem truncDiv_turned {a b c d : ℤ} (hleft : c.natAbs = a.natAbs) (hright : d.natAbs = b.natAbs)
    (hturned : (0 ≤ c ↔ 0 ≤ d) ↔ ¬(0 ≤ a ↔ 0 ≤ b)) : truncDiv c d = -truncDiv a b := by
  rw [truncDiv, truncDiv, hleft, hright]
  by_cases hsigns : 0 ≤ a ↔ 0 ≤ b
  · rw [if_pos hsigns, if_neg fun hsame => hturned.mp hsame hsigns]
  · rw [if_neg hsigns, if_pos (hturned.mpr hsigns), neg_neg]

theorem changesSign_truncDiv : ChangesSign truncDiv where
  left a b := by
    by_cases ha : a = 0
    -- the test takes both signs of zero alike, and the quotient has none either
    · simp [ha, truncDiv]
    · exact truncDiv_turned a.natAbs_neg rfl (by omega)
  right a b := by
    by_cases hb : b = 0
    · simp [hb, truncDiv]
    · exact truncDiv_turned rfl b.natAbs_neg (by omega)

theorem truncDiv_eq_tdiv (a b : ℤ) : truncDiv a b = a.tdiv b :=
  changesSign_truncDiv.eq_of_sizes ⟨Int.neg_tdiv, Int.tdiv_neg⟩ truncDiv_natCast a b

theorem sub_mul_truncDiv (a b : ℤ) : a - b * truncDiv a b = a.tmod b := by
  rw [truncDiv_eq_tdiv, Int.tmod_def]

/-! ### Rounding toward zero -/

/-- The integer next to a rational number on its way to zero. -/
def towardZero (x : ℚ) : ℤ :=
  if 0 ≤ x then ⌊x⌋ else ⌈x⌉

theorem towardZero_neg (x : ℚ) : towardZero (-x) = -towardZero x := by
  rcases lt_trichotomy x 0 with hneg | rfl | hpos
  · rw [towardZero, towardZero, if_pos (by linarith), if_neg (not_le.mpr hneg), Int.floor_neg]
  · simp [towardZero]
  · rw [towardZero, towardZero, if_neg (by linarith), if_pos hpos.le, Int.ceil_neg]

theorem towardZero_natCast_div (m n : ℕ) : towardZero (m / n) = m / n := by
  have hnonneg : (0 : ℚ) ≤ m / n := div_nonneg m.cast_nonneg n.cast_nonneg
  rw [towardZero, if_pos hnonneg, Rat.floor_natCast_div_natCast]

theorem changesSign_towardZero : ChangesSign fun a b => towardZero (a / b) where
  left a b := by rw [Int.cast_neg, neg_div, towardZero_neg]
  right a b := by rw [Int.cast_neg, div_neg, towardZero_neg]

/-- The quotient of the sizes with the sign test is the exact quotient rounded toward zero. -/
theorem towardZero_div (a b : ℤ) : towardZero ((a : ℚ) / b) = truncDiv a b := by
  refine changesSign_towardZero.eq_of_sizes changesSign_truncDiv (fun m n => ?_) a b
  rw [Int.cast_natCast, Int.cast_natCast, towardZero_natCast_div, truncDiv_natCast,
    Int.tdiv_eq_ediv_of_nonneg (Int.natCast_nonneg m)]

/-- What truncation toward zero makes of a dividend and a divisor: a quotient and what is left. -/
structure Truncates (a b quotient rest : Int) : Prop where
  rounded : quotient = towardZero ((a : ℚ) / b)
  recombined : a = b * quotient + rest
  smaller : rest.natAbs < b.natAbs
  sign : rest = 0 ∨ rest.sign = a.sign

theorem truncates_truncDiv (a : Int) {b : Int} (hb : b ≠ 0) :
    Truncates a b (truncDiv a b) (a - b * truncDiv a b) where
  rounded := (towardZero_div a b).symm
  recombined := by omega
  smaller := by
    rw [sub_mul_truncDiv, Int.natAbs_tmod]
    exact Nat.mod_lt _ (Int.natAbs_pos.mpr hb)
  sign := by
    rw [sub_mul_truncDiv]
    by_cases hdvd : b ∣ a
    · exact Or.inl (Int.tmod_eq_zero_of_dvd hdvd)
    · exact Or.inr (by rw [Int.sign_tmod, if_neg hdvd])

/-! ### Division and remainder -/

theorem operate_div_int (a : Int) {b : Int} (hb : b ≠ 0) :
    operate (.arith .div) (.int a) (.int b) = .ok (.int (truncDiv a b)) := by
  simp [operate, combine, isZero, hb]

theorem operate_rem_int (a : Int) {b : Int} (hb : b ≠ 0) :
    operate (.arith .rem) (.int a) (.int b) = .ok (.int (a - b * truncDiv a b)) := by
  simp [operate, combine, isZero, hb]

/-- Division and remainder of integers fail when the divisor is zero, and only then. -/
theorem operate_int_eq_error_iff {op : ArithOp} (hop : op = .div ∨ op = .rem) {a b : Int}
    {cause : Failure} : operate (.arith op) (.int a) (.int b) = .error cause ↔
      b = 0 ∧ cause = .mistake .divisionByZero := by
  by_cases hb : b = 0
  · subst hb
    have hfails : operate (.arith op) (.int a) (.int 0) = .error (.mistake .divisionByZero) := by
      rcases hop with rfl | rfl <;> rfl
    rw [hfails, Except.error.injEq, eq_comm]
    exact (and_iff_right rfl).symm
  · have hworks : ∃ k, operate (.arith op) (.int a) (.int b) = .ok k := by
      rcases hop with rfl | rfl
      · exact ⟨_, operate_div_int a hb⟩
      · exact ⟨_, operate_rem_int a hb⟩
    obtain ⟨k, hk⟩ := hworks
    simp [hk, hb]

/-- Integers are divided as in C. The quotient is rounded toward zero, and the remainder is what
that leaves: smaller than the divisor, and zero or with the sign of the dividend. Both fail when
the divisor is zero and only then; otherwise, as in every comparison, two integers give an
integer. -/
theorem division_truncates (a b : Int) :
    (b ≠ 0 → ∃ quotient rest,
      operate (.arith .div) (.int a) (.int b) = .ok (.int quotient) ∧
      operate (.arith .rem) (.int a) (.int b) = .ok (.int rest) ∧
      Truncates a b quotient rest) ∧
    (∀ op cause, op = .div ∨ op = .rem →
      (operate (.arith op) (.int a) (.int b) = .error cause ↔
        b = 0 ∧ cause = .mistake .divisionByZero)) ∧
    ∀ test, operate (.compare test) (.int a) (.int b) =
      .ok (.int (if test.Holds a b then 1 else 0)) := by
  refine ⟨?_, ?_, ?_⟩
  · intro hb
    exact ⟨_, _, operate_div_int a hb, operate_rem_int a hb, truncates_truncDiv a hb⟩
  · intro op cause hop
    exact operate_int_eq_error_iff hop
  · intro test
    exact operate_compare_int test a b

/-- A negative dividend: `-7 / 2` is `-3`, where the quotient rounded down would be `-4`, and
`-7 % 2` is `-1`. -/
theorem division_truncates_negative :
    (2 : Int) ≠ 0 ∧ operate (.arith .div) (.int (-7)) (.int 2) = .ok (.int (-3)) ∧
      operate (.arith .rem) (.int (-7)) (.int 2) = .ok (.int (-1)) ∧
      Truncates (-7) 2 (-3) (-1) := by
  have hdivisor : (2 : Int) ≠ 0 := by decide
  obtain ⟨quotient, rest, hquotient, hrest, htruncates⟩ := (division_truncates (-7) 2).1 hdivisor
  have hdown : (.ok (.int (-3)) : Except Failure Number) = .ok (.int quotient) := hquotient
  have hleft : (.ok (.int (-1)) : Except Failure Number) = .ok (.int rest) := hrest
  cases hdown
  cases hleft
  exact ⟨hdivisor, hquotient, hrest, htruncates⟩

end Number

end ToyC
