import ToyC.Decimal.Binary

/-!
The range of the doubles. An integer has a double next to it as long as it is nearer to the
largest double than to the power of two behind it, `2 ^ 1024`. The number halfway between
the two goes to the even one, which is the power of two, so it is the first without a double.
-/

namespace ToyC.Decimal

/-- The exponent of the first power of two beyond the doubles. -/
def endExponent : Nat := 1024

/-- The least natural number beyond the doubles. -/
def leastBeyond : Nat :=
  Nat.pow 2 endExponent - Nat.pow 2 (endExponent - 54)

theorem le_roundDiv (num den : Nat) : num / den ≤ roundDiv num den := by
  simp only [roundDiv]
  split <;> omega

theorem roundDiv_le (num den : Nat) : roundDiv num den ≤ num / den + 1 := by
  simp only [roundDiv]
  split <;> omega

/-- A half goes away from an odd number, so what is rounded to it at most lies below the half
behind it. -/
theorem roundDiv_le_iff {num den q : Nat} (hden : 0 < den) (hodd : q % 2 = 1) :
    roundDiv num den ≤ q ↔ 2 * num < 2 * (den * q) + den := by
  have hnum := Nat.div_add_mod num den
  have hrest := Nat.mod_lt num hden
  have hlow := le_roundDiv num den
  have hhigh := roundDiv_le num den
  obtain hlt | heq | hgt := Nat.lt_trichotomy (num / den) q
  · have hstep : den * (num / den) + den ≤ den * q := Nat.mul_le_mul_left den hlt
    omega
  · have hround : roundDiv num den = q ↔ 2 * (num % den) < den := by
      simp only [roundDiv, heq]
      split <;> omega
    rw [heq] at hnum
    omega
  · have hstep : den * q + den ≤ den * (num / den) := Nat.mul_le_mul_left den hgt
    omega

theorem log2_bounds {num : Nat} (h : num ≠ 0) :
    Nat.pow 2 num.log2 ≤ num ∧ num < Nat.pow 2 (num.log2 + 1) :=
  ⟨Nat.log2_self_le h, Nat.lt_log2_self⟩

theorem binaryExponent_one {num : Nat} (h : num ≠ 0) : binaryExponent num 1 = num.log2 := by
  have hlow := (log2_bounds h).1
  have hone : Nat.log2 1 = 0 := by decide
  simp only [binaryExponent, scaled, hone]
  split
  · rename_i hzero
    have hlog : num.log2 = 0 := by omega
    rw [if_neg (by simp [hlog]; omega)]
    simp
  · rw [if_neg (by simp; exact hlow)]
    simp

theorem pow_two_pos (k : Nat) : 0 < Nat.pow 2 k :=
  Nat.two_pow_pos k

theorem pow_two_add {m n k : Nat} (h : m + n = k) : Nat.pow 2 k = Nat.pow 2 m * Nat.pow 2 n := by
  rw [← h]
  exact Nat.pow_add 2 m n

/-- An integer that is shifted until it has 53 digits before the point. -/
theorem scaled_bounds {num top bottom : Nat} (h : num ≠ 0)
    (hscaled : scaled num 1 (-((num.log2 : Int) - 52)) = (top, bottom)) :
    Nat.pow 2 52 ≤ top / bottom ∧ top / bottom < Nat.pow 2 53 := by
  obtain ⟨hlow, hhigh⟩ := log2_bounds h
  simp only [scaled] at hscaled
  split at hscaled
  · obtain ⟨rfl, rfl⟩ := Prod.mk.inj hscaled
    have hshift : (-((num.log2 : Int) - 52)).toNat = 52 - num.log2 := by omega
    have hpos := pow_two_pos (52 - num.log2)
    rw [hshift, Nat.div_one, pow_two_add (show num.log2 + (52 - num.log2) = 52 by omega),
      pow_two_add (show num.log2 + 1 + (52 - num.log2) = 53 by omega)]
    exact ⟨Nat.mul_le_mul_right _ hlow, Nat.mul_lt_mul_of_pos_right hhigh hpos⟩
  · obtain ⟨rfl, rfl⟩ := Prod.mk.inj hscaled
    have hshift : (-(-((num.log2 : Int) - 52))).toNat = num.log2 - 52 := by omega
    have hpos := pow_two_pos (num.log2 - 52)
    rw [hshift, Nat.one_mul, Nat.le_div_iff_mul_le hpos, Nat.div_lt_iff_lt_mul hpos,
      ← pow_two_add (show 52 + (num.log2 - 52) = num.log2 by omega),
      ← pow_two_add (show 53 + (num.log2 - 52) = num.log2 + 1 by omega)]
    exact ⟨hlow, hhigh⟩

theorem nearestBits_one {num top bottom : Nat} (h : num ≠ 0)
    (hscaled : scaled num 1 (-((num.log2 : Int) - 52)) = (top, bottom)) :
    nearestBits num 1 = (num.log2 + 1022) * Nat.pow 2 52 + roundDiv top bottom := by
  have hexponent : max ((num.log2 : Int) - 52) minExponent = (num.log2 : Int) - 52 := by
    simp only [minExponent]
    omega
  have hplace : ((num.log2 : Int) - 52 - minExponent).toNat = num.log2 + 1022 := by
    simp only [minExponent]
    omega
  rw [nearestBits, if_neg h]
  simp only [binaryExponent_one h, hexponent, hplace, hscaled]

theorem scaled_of_long {num k : Nat} (h : 52 < k) :
    scaled num 1 (-((k : Int) - 52)) = (num, Nat.pow 2 (k - 52)) := by
  have hshift : (-(-((k : Int) - 52))).toNat = k - 52 := by omega
  rw [scaled, if_neg (by omega), hshift, Nat.one_mul]

/-- The natural numbers that the doubles reach. Those with fewer than 1024 binary digits are rounded
within their digits, and those with more lie beyond; of those with 1024, the last half step
counts. -/
theorem nearestBits_lt_iff (num : Nat) : nearestBits num 1 < infinityBits ↔ num < leastBeyond := by
  obtain ⟨e, he⟩ : ∃ e, e = endExponent - 54 := ⟨_, rfl⟩
  have hend : endExponent = 54 + e := by
    rw [he]
    rfl
  have hdigits : e = 970 := he
  have hhalfSteps : ∀ {m k : Nat}, m + e = k → Nat.pow 2 k = Nat.pow 2 m * Nat.pow 2 e :=
    fun h => pow_two_add h
  have hstep := pow_two_pos e
  have h52 : Nat.pow 2 52 = 4503599627370496 := rfl
  have h53 : Nat.pow 2 53 = 9007199254740992 := rfl
  have h54 : Nat.pow 2 54 = 18014398509481984 := rfl
  rw [leastBeyond, ← he, hhalfSteps hend.symm, h54, infinityBits]
  by_cases hzero : num = 0
  · rw [hzero, nearestBits, if_pos rfl]
    omega
  obtain ⟨hlow, hhigh⟩ := log2_bounds hzero
  match hscaled : scaled num 1 (-((num.log2 : Int) - 52)) with
  | (top, bottom) =>
      obtain ⟨hfrom, hto⟩ := scaled_bounds hzero hscaled
      have hleast := le_roundDiv top bottom
      have hmost := roundDiv_le top bottom
      rw [nearestBits_one hzero hscaled, h52]
      obtain hlt | heq | hgt := Nat.lt_trichotomy num.log2 1023
      · have hnum : num < Nat.pow 2 (53 + e) :=
          Nat.lt_of_lt_of_le hhigh (Nat.pow_le_pow_right Nat.two_pos (by omega))
        rw [hhalfSteps rfl, h53] at hnum
        omega
      · have htwo : Nat.pow 2 1 = 2 := rfl
        rw [scaled_of_long (by omega), hhalfSteps (show 1 + e = num.log2 - 52 by omega), htwo]
          at hscaled
        obtain ⟨rfl, rfl⟩ := Prod.mk.inj hscaled
        have hlargest : roundDiv num (2 * Nat.pow 2 e) ≤ 9007199254740991 ↔
            2 * num < 2 * (2 * Nat.pow 2 e * 9007199254740991) + 2 * Nat.pow 2 e :=
          roundDiv_le_iff (by omega) rfl
        omega
      · have hnum : Nat.pow 2 (54 + e) ≤ num :=
          Nat.le_trans (Nat.pow_le_pow_right Nat.two_pos (by omega)) hlow
        rw [hhalfSteps rfl, h54] at hnum
        omega

/-- An integer has a double unless it lies beyond them on one of the two sides. -/
theorem ofInt?_eq_none_iff (n : Int) : ofInt? n = none ↔ leastBeyond ≤ n.natAbs := by
  have hreach := nearestBits_lt_iff n.natAbs
  simp only [ofInt?, nearest?]
  split
  · rename_i hbits
    have hlt := hreach.mp hbits
    simp only [reduceCtorEq, false_iff]
    omega
  · rename_i hbits
    simp only [true_iff]
    exact Nat.le_of_not_lt fun hlt => hbits (hreach.mpr hlt)

end ToyC.Decimal
