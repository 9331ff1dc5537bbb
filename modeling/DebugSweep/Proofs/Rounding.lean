import DebugSweep.Number.Shortest
import Mathlib.Algebra.Order.Field.Power
import Mathlib.Tactic.FieldSimp
import Mathlib.Tactic.Linarith
import Mathlib.Tactic.NormNum
import Mathlib.Tactic.Positivity
import Mathlib.Tactic.Ring

/-! Rounding to doubles. Main statement: every quotient, and every decimal, that lies in the span of a
finite double is read as that double. -/
namespace DebugSweep.Binary64

theorem roundedBetween {n d k : Nat} (positive : 0 < d) (low : 2 * k * d ≤ 2 * n + d)
    (high : 2 * n ≤ 2 * k * d + d) (ties : k % 2 = 0 ∨ 2 * k * d < 2 * n + d ∧ 2 * n < 2 * k * d + d) :
    roundQuotient n d = k := by
  have whole : d * (n / d) + n % d = n := Nat.div_add_mod n d
  have part : n % d < d := Nat.mod_lt n positive
  unfold roundQuotient
  generalize n / d = floor at whole ⊢
  generalize n % d = rest at whole part ⊢
  subst whole
  have near : k = floor ∨ k = floor + 1 := by
    have above : k < floor + 2 := by
      by_contra far
      have wide : (floor + 2) * d ≤ k * d := Nat.mul_le_mul_right d (not_lt.mp far)
      linarith
    have below : floor < k + 1 := by
      by_contra far
      have wide : (k + 1) * d ≤ floor * d := Nat.mul_le_mul_right d (not_lt.mp far)
      linarith
    omega
  dsimp only
  rcases near with rfl | rfl
  · have least : 2 * rest ≤ d := by linarith
    rcases ties with even | ⟨-, less⟩
    · split
      · rfl
      · rw [if_neg (by omega), even, Nat.add_zero]
    · rw [if_pos (by linarith)]
  · have most : d ≤ 2 * rest := by linarith
    rcases ties with even | ⟨more, -⟩
    · rw [if_neg (by omega)]
      split
      · rfl
      · omega
    · have more' : d < 2 * rest := by linarith
      rw [if_neg (by omega), if_pos more']

theorem roundedNear {n d k : Nat} (positive : 0 < d) (low : (k - 1 / 2 : ℚ) ≤ n / d) (high : (n / d : ℚ) ≤ k + 1 / 2)
    (ties : k % 2 = 0 ∨ (k - 1 / 2 : ℚ) < n / d ∧ (n / d : ℚ) < k + 1 / 2) : roundQuotient n d = k := by
  have d0 : (0 : ℚ) < d := by exact_mod_cast positive
  rw [le_div_iff₀ d0] at low
  rw [div_le_iff₀ d0] at high
  rw [lt_div_iff₀ d0, div_lt_iff₀ d0] at ties
  refine roundedBetween positive ?_ ?_ (ties.imp_right fun ⟨less, more⟩ => ⟨?_, ?_⟩)
  · have cast : (2 * k * d : ℚ) ≤ 2 * n + d := by linarith
    exact_mod_cast cast
  · have cast : (2 * n : ℚ) ≤ 2 * k * d + d := by linarith
    exact_mod_cast cast
  · have cast : (2 * k * d : ℚ) < 2 * n + d := by linarith
    exact_mod_cast cast
  · have cast : (2 * n : ℚ) < 2 * k * d + d := by linarith
    exact_mod_cast cast

theorem inUnitsQuotient (num den : Nat) (unit : Int) :
    ((inUnits num den unit).1 : ℚ) / (inUnits num den unit).2 = num / den / 2 ^ unit := by
  unfold inUnits
  obtain ⟨k, rfl | rfl⟩ := unit.eq_nat_or_neg
  · rw [if_neg (by omega)]
    push_cast [Int.natAbs_natCast, Nat.pow_eq]
    rw [zpow_natCast, div_div]
  · rcases Nat.eq_zero_or_pos k with rfl | positive
    · simp
    · rw [if_pos (by omega)]
      push_cast [Int.natAbs_neg, Int.natAbs_natCast, Nat.pow_eq]
      rw [zpow_neg, zpow_natCast, div_inv_eq_mul, mul_div_right_comm]

theorem inUnitsPositive {den : Nat} (positive : 0 < den) (num : Nat) (unit : Int) : 0 < (inUnits num den unit).2 := by
  unfold inUnits
  split
  · exact positive
  · exact Nat.mul_pos positive (Nat.pow_pos (by decide))

theorem roundedUnits {num den k : Nat} {unit : Int} (positive : 0 < den) (low : (k - 1 / 2 : ℚ) * 2 ^ unit ≤ num / den)
    (high : (num / den : ℚ) ≤ (k + 1 / 2) * 2 ^ unit)
    (ties : k % 2 = 0 ∨ (k - 1 / 2 : ℚ) * 2 ^ unit < num / den ∧ (num / den : ℚ) < (k + 1 / 2) * 2 ^ unit) :
    roundQuotient (inUnits num den unit).1 (inUnits num den unit).2 = k := by
  have unit0 : (0 : ℚ) < 2 ^ unit := by positivity
  refine roundedNear (inUnitsPositive positive num unit) ?_ ?_ ?_
  all_goals rw [inUnitsQuotient]
  · rwa [le_div_iff₀ unit0]
  · rwa [div_le_iff₀ unit0]
  · rwa [lt_div_iff₀ unit0, div_lt_iff₀ unit0]

theorem binadeBounds {num den : Nat} (some : 0 < num) (positive : 0 < den) :
    (2 : ℚ) ^ binade num den ≤ num / den ∧ (num / den : ℚ) < 2 ^ (binade num den + 1) := by
  have top : (num : ℚ) < 2 ^ ((num.log2 : Int) + 1) := by
    exact_mod_cast Nat.lt_log2_self
  have bottom : (2 : ℚ) ^ (num.log2 : Int) ≤ num := by
    exact_mod_cast Nat.log2_self_le (Nat.ne_of_gt some)
  have beyond : (den : ℚ) < 2 ^ ((den.log2 : Int) + 1) := by
    exact_mod_cast Nat.lt_log2_self
  have under : (2 : ℚ) ^ (den.log2 : Int) ≤ den := by
    exact_mod_cast Nat.log2_self_le (Nat.ne_of_gt positive)
  have den0 : (0 : ℚ) < den := by exact_mod_cast positive
  have guessHigh : (num / den : ℚ) < 2 ^ ((num.log2 : Int) - den.log2 + 1) := by
    rw [div_lt_iff₀ den0]
    calc (num : ℚ) < 2 ^ ((num.log2 : Int) + 1) := top
      _ = 2 ^ ((num.log2 : Int) - den.log2 + 1) * 2 ^ (den.log2 : Int) := by
        rw [← zpow_add₀ two_ne_zero]; congr 1; ring
      _ ≤ _ := by gcongr
  have guessLow : (2 : ℚ) ^ ((num.log2 : Int) - den.log2 - 1) ≤ num / den := by
    rw [le_div_iff₀ den0]
    calc (2 : ℚ) ^ ((num.log2 : Int) - den.log2 - 1) * den
        ≤ 2 ^ ((num.log2 : Int) - den.log2 - 1) * 2 ^ ((den.log2 : Int) + 1) := by gcongr
      _ = 2 ^ (num.log2 : Int) := by rw [← zpow_add₀ two_ne_zero]; congr 1; ring
      _ ≤ num := bottom
  have quotient := inUnitsQuotient num den ((num.log2 : Int) - den.log2)
  have scaled := inUnitsPositive positive num ((num.log2 : Int) - den.log2)
  unfold binade
  dsimp only
  generalize (num.log2 : Int) - den.log2 = guess at *
  generalize inUnits num den guess = pair at *
  obtain ⟨n, d⟩ := pair
  have unit0 : (0 : ℚ) < 2 ^ guess := by positivity
  have d0 : (0 : ℚ) < d := by exact_mod_cast scaled
  dsimp only at quotient ⊢
  split
  · rename_i less
    rw [sub_add_cancel]
    refine ⟨guessLow, ?_⟩
    have one : (n : ℚ) / d < 1 := by
      rw [div_lt_one d0]
      exact_mod_cast less
    rwa [quotient, div_lt_one unit0] at one
  · rename_i more
    refine ⟨?_, guessHigh⟩
    have one : 1 ≤ (n : ℚ) / d := by
      rw [one_le_div d0]
      exact_mod_cast not_lt.mp more
    rwa [quotient, one_le_div unit0] at one

/-- The parts of a finite double above zero: a full mantissa, or the least exponent. -/
structure Parts.Fit (p : Parts) : Prop where
  positive : 0 < p.mantissa
  small : p.mantissa < 2 * fractionSize
  least : -1074 ≤ p.exponent
  greatest : p.exponent ≤ 971
  full : p.exponent ≠ -1074 → fractionSize ≤ p.mantissa

/-- The number lies in the span of the double, of which a mantissa that is even has the ends. -/
def Parts.Takes (p : Parts) (x : ℚ) : Prop :=
  p.span.low * 2 ^ (p.exponent - 2) ≤ x ∧ x ≤ p.span.high * 2 ^ (p.exponent - 2) ∧
    (p.mantissa % 2 = 0 ∨ p.span.low * 2 ^ (p.exponent - 2) < x ∧ x < p.span.high * 2 ^ (p.exponent - 2))

def Parts.bits (p : Parts) : Nat := (p.exponent + 1074).toNat * fractionSize + p.mantissa

theorem Parts.Fit.lowWide {p : Parts} (fit : p.Fit) : (4 * p.mantissa - 2 : ℚ) ≤ p.span.low := by
  have positive := fit.positive
  have wide : 4 * p.mantissa ≤ p.span.low + 2 := by
    unfold Parts.span
    dsimp only
    split <;> omega
  have cast : (4 * p.mantissa : ℚ) ≤ p.span.low + 2 := by exact_mod_cast wide
  linarith

theorem Parts.spanHigh (p : Parts) : (p.span.high : ℚ) = 4 * p.mantissa + 2 := by
  unfold Parts.span
  push_cast
  rfl

section
variable {p : Parts} {num den : Nat}

theorem Parts.quarters (p : Parts) (k : Nat) {exponent : Int} (above : exponent = p.exponent - 2 + k) :
    (2 : ℚ) ^ exponent = 2 ^ k * 2 ^ (p.exponent - 2) := by
  rw [above, zpow_add₀ two_ne_zero, zpow_natCast, mul_comm]

theorem Parts.Fit.belowFull (fit : p.Fit) (raised : p.exponent ≠ -1074) {x : ℚ} (taken : p.Takes x)
    (below : x < 2 ^ (p.exponent + 52)) :
    p.mantissa = fractionSize ∧ (2 ^ 54 - 1 : ℚ) * 2 ^ (p.exponent - 2) ≤ x := by
  have low := taken.1
  rw [p.quarters 54 (by omega)] at below
  have same : p.mantissa = fractionSize := by
    by_contra other
    have next : (2 ^ 52 + 1 : ℚ) ≤ p.mantissa := by
      have whole : 2 ^ 52 + 1 ≤ p.mantissa := Nat.lt_of_le_of_ne (fit.full raised) (Ne.symm other)
      exact_mod_cast whole
    have wide := fit.lowWide
    have far : (2 ^ 54 : ℚ) * 2 ^ (p.exponent - 2) ≤ p.span.low * 2 ^ (p.exponent - 2) := by
      gcongr
      linarith
    linarith
  have near : p.span.low = 2 ^ 54 - 1 := by
    unfold Parts.span
    simp only [same, beq_self_eq_true, Bool.true_and, bne_iff_ne, ne_eq, raised, not_false_eq_true, if_true]
    decide
  rw [near] at low
  exact ⟨same, by exact_mod_cast low⟩

theorem Parts.Fit.unit (fit : p.Fit) (some : 0 < num) (positive : 0 < den) (taken : p.Takes (num / den)) :
    max (binade num den - 52) (-1074) = p.exponent ∨
      max (binade num den - 52) (-1074) = p.exponent - 1 ∧ p.mantissa = fractionSize ∧ -1074 < p.exponent ∧
        (2 ^ 54 - 1 : ℚ) * 2 ^ (p.exponent - 2) ≤ num / den ∧ (num / den : ℚ) < 2 ^ 54 * 2 ^ (p.exponent - 2) := by
  have high := taken.2.1
  obtain ⟨under, beyond⟩ := binadeBounds some positive
  have least := fit.least
  have exponents {a b : Int} (less : (2 : ℚ) ^ a < 2 ^ b) : a < b := (zpow_lt_zpow_iff_right₀ one_lt_two).mp less
  have most : binade num den < p.exponent + 53 := by
    have small : (p.mantissa : ℚ) + 1 ≤ 2 ^ 53 := by
      have whole : p.mantissa + 1 ≤ 2 ^ 53 := fit.small
      exact_mod_cast whole
    rw [p.spanHigh] at high
    refine exponents (under.trans_lt (high.trans_lt ?_))
    rw [p.quarters 55 (show p.exponent + 53 = _ by omega)]
    gcongr
    linarith
  by_cases reached : (2 : ℚ) ^ (p.exponent + 52) ≤ num / den
  · have more := exponents (reached.trans_lt beyond)
    exact .inl (by omega)
  · rw [not_le] at reached
    have less := exponents (under.trans_lt reached)
    by_cases raised : p.exponent = -1074
    · exact .inl (by omega)
    · obtain ⟨same, near⟩ := fit.belowFull raised taken reached
      have more : p.exponent + 51 < binade num den + 1 := by
        refine exponents (lt_of_le_of_lt ?_ (near.trans_lt beyond))
        rw [p.quarters 53 (show p.exponent + 51 = _ by omega)]
        gcongr
        norm_num
      rw [p.quarters 54 (by omega)] at reached
      exact .inr ⟨by omega, same, by omega, near, reached⟩

theorem Parts.Fit.bitsFinite (fit : p.Fit) : p.bits < infinity.toNat := by
  have most : infinity.toNat = 2047 * 4503599627370496 := by decide
  have small := fit.small
  have least := fit.least
  have greatest := fit.greatest
  rw [most, Parts.bits]
  unfold fractionSize at small ⊢
  omega

theorem ofRatioTaken (fit : p.Fit) (some : 0 < num) (positive : 0 < den) (taken : p.Takes (num / den)) :
    ofRatio num den = p.bits.toUInt64 := by
  have quarter : (0 : ℚ) < 2 ^ (p.exponent - 2) := by positivity
  have counted : (max (binade num den - 52) (-1074) + 1074).toNat * fractionSize +
      roundQuotient (inUnits num den (max (binade num den - 52) (-1074))).1
        (inUnits num den (max (binade num den - 52) (-1074))).2 = p.bits := by
    rcases fit.unit some positive taken with unit | ⟨unit, same, raised, near, less⟩
    · obtain ⟨low, high, ties⟩ := taken
      have wide := fit.lowWide
      rw [p.spanHigh] at high ties
      have step := p.quarters 2 (show p.exponent = _ by omega)
      have bottom : (p.mantissa - 1 / 2 : ℚ) * 2 ^ p.exponent ≤ p.span.low * 2 ^ (p.exponent - 2) := by
        rw [step]
        calc (p.mantissa - 1 / 2 : ℚ) * (2 ^ 2 * 2 ^ (p.exponent - 2)) = (4 * p.mantissa - 2) * 2 ^ (p.exponent - 2) := by ring
          _ ≤ _ := by gcongr
      have top : (p.mantissa + 1 / 2 : ℚ) * 2 ^ p.exponent = (4 * p.mantissa + 2) * 2 ^ (p.exponent - 2) := by
        rw [step]
        ring
      rw [unit, roundedUnits positive (bottom.trans low) (by rwa [top])
        (ties.imp_right fun ⟨more, less⟩ => ⟨bottom.trans_lt more, by rwa [top]⟩)]
      rfl
    · have step := p.quarters 1 (show p.exponent - 1 = _ by omega)
      have shift : (p.exponent + 1074).toNat = (p.exponent - 1 + 1074).toNat + 1 := by omega
      have size : ((2 * fractionSize : Nat) : ℚ) = 2 ^ 53 := by norm_num [fractionSize]
      rw [unit, roundedUnits (k := 2 * fractionSize) positive (by rw [size, step]; linarith)
        (by rw [size, step]; linarith) (.inl (by decide)), Parts.bits, same, shift]
      ring
  unfold ofRatio
  rw [if_neg (by simpa using Nat.ne_of_gt some)]
  dsimp only
  rw [counted, if_pos fit.bitsFinite]

theorem decimalLengthBounds {n : Nat} (some : 0 < n) :
    0 < decimalLength n ∧ 10 ^ (decimalLength n - 1) ≤ n ∧ n < 10 ^ decimalLength n := by
  have filled : 0 < decimalLength n := Nat.length_toDigits_pos
  have beyond : n < 10 ^ decimalLength n := (Nat.length_toDigits_le_iff (by decide) filled).mp le_rfl
  refine ⟨filled, ?_, beyond⟩
  rcases Nat.eq_or_lt_of_le filled with one | more
  · rw [← one]
    exact some
  · by_contra less
    have shorter := (Nat.length_toDigits_le_iff (n := n) (b := 10) (by decide) (Nat.sub_pos_of_lt more)).mpr (not_le.mp less)
    unfold decimalLength at shorter more
    omega

theorem Parts.Fit.decimalSize (fit : p.Fit) {digits : Nat} {exponent : Int} (some : 0 < digits)
    (taken : p.Takes (digits * 10 ^ exponent)) :
    ¬ 320 < exponent + decimalLength digits ∧ ¬ exponent + decimalLength digits < -340 := by
  obtain ⟨low, high, -⟩ := taken
  obtain ⟨filled, bottom, top⟩ := decimalLengthBounds some
  have exponents {a b : Int} (less : (10 : ℚ) ^ a < 10 ^ b) : a < b :=
    (zpow_lt_zpow_iff_right₀ (by norm_num)).mp less
  have tens : (10 : ℚ) ≠ 0 := by norm_num
  have least : (10 : ℚ) ^ (exponent + decimalLength digits - 1) ≤ digits * 10 ^ exponent := by
    have cast : (10 : ℚ) ^ (decimalLength digits - 1) ≤ digits := by exact_mod_cast bottom
    calc (10 : ℚ) ^ (exponent + decimalLength digits - 1) = 10 ^ (decimalLength digits - 1) * 10 ^ exponent := by
          rw [← zpow_natCast, ← zpow_add₀ tens]
          congr 1
          omega
      _ ≤ _ := by gcongr
  have most : (digits * 10 ^ exponent : ℚ) < 10 ^ (exponent + decimalLength digits) := by
    have cast : (digits : ℚ) < 10 ^ decimalLength digits := by exact_mod_cast top
    rw [add_comm, zpow_add₀ tens, zpow_natCast]
    gcongr
  have upper : (digits * 10 ^ exponent : ℚ) < 10 ^ (309 : Int) := by
    have small : (p.mantissa : ℚ) + 1 ≤ 2 ^ 53 := by
      have whole : p.mantissa + 1 ≤ 2 ^ 53 := fit.small
      exact_mod_cast whole
    have greatest := fit.greatest
    rw [p.spanHigh] at high
    calc (digits * 10 ^ exponent : ℚ) ≤ (4 * p.mantissa + 2) * 2 ^ (p.exponent - 2) := high
      _ ≤ 2 ^ 55 * 2 ^ (969 : Int) := by
        gcongr
        · linarith
        · norm_num
        · omega
      _ < 10 ^ (309 : Int) := by
        have whole : 2 ^ 55 * 2 ^ 969 < 10 ^ 309 := by decide +kernel
        exact_mod_cast whole
  have lower : (10 : ℚ) ^ (-324 : Int) < digits * 10 ^ exponent := by
    have wide := fit.lowWide
    have one : (1 : ℚ) ≤ p.mantissa := by exact_mod_cast fit.positive
    have bound := fit.least
    calc (10 : ℚ) ^ (-324 : Int) < 2 * 2 ^ (-1076 : Int) := by
          have whole : 2 ^ 1076 < 2 * 10 ^ 324 := by decide +kernel
          have cast : (2 ^ 1076 : ℚ) < 2 * 10 ^ 324 := by exact_mod_cast whole
          rw [zpow_neg, zpow_neg, ← div_eq_mul_inv, lt_div_iff₀ (by positivity), inv_mul_lt_iff₀ (by positivity), mul_comm]
          exact_mod_cast cast
      _ ≤ p.span.low * 2 ^ (p.exponent - 2) := by
        gcongr
        · linarith
        · norm_num
        · omega
      _ ≤ _ := low
  have less := exponents (least.trans_lt upper)
  have more := exponents (lower.trans most)
  omega

theorem ofDecimalTaken (fit : p.Fit) {digits : Nat} {exponent : Int} (some : 0 < digits)
    (taken : p.Takes (digits * 10 ^ exponent)) : ofDecimal digits exponent = p.bits.toUInt64 := by
  obtain ⟨small, large⟩ := fit.decimalSize some taken
  unfold ofDecimal
  dsimp only
  rw [if_neg (by simpa using Nat.ne_of_gt some), if_neg small, if_neg large]
  obtain ⟨k, rfl | rfl⟩ := exponent.eq_nat_or_neg
  · rw [if_neg (by omega)]
    have powered : 0 < digits * Nat.pow 10 k := Nat.mul_pos some (Nat.pow_pos (by decide))
    refine ofRatioTaken fit powered one_pos ?_
    push_cast [Int.natAbs_natCast, Nat.pow_eq]
    rwa [div_one, ← zpow_natCast]
  · rcases Nat.eq_zero_or_pos k with rfl | lower
    · rw [if_neg (by omega)]
      exact ofRatioTaken fit (by simpa using some) one_pos (by simpa using taken)
    · rw [if_pos (by omega)]
      refine ofRatioTaken fit some (Nat.pow_pos (by decide)) ?_
      push_cast [Int.natAbs_neg, Int.natAbs_natCast, Nat.pow_eq]
      rwa [zpow_neg, zpow_natCast, ← div_eq_mul_inv] at taken

end

theorem partsFields (bits : UInt64) : ∃ field fraction, (magnitude bits).toNat = fractionSize * field + fraction ∧
    fraction < fractionSize ∧ (field = 0 ∧ parts bits = ⟨fraction, -1074⟩ ∨
      0 < field ∧ parts bits = ⟨fraction + fractionSize, field - 1075⟩) := by
  refine ⟨_, _, (Nat.div_add_mod _ _).symm, Nat.mod_lt _ (by decide), ?_⟩
  unfold parts
  dsimp only
  split
  · rename_i zero
    exact .inl ⟨beq_iff_eq.mp zero, rfl⟩
  · rename_i some
    exact .inr ⟨Nat.pos_of_ne_zero (fun zero => some (beq_iff_eq.mpr zero)), rfl⟩

theorem partsBits (bits : UInt64) : (parts bits).bits = (magnitude bits).toNat := by
  obtain ⟨field, fraction, whole, -, ⟨rfl, same⟩ | ⟨some, same⟩⟩ := partsFields bits
  · rw [whole, same, Parts.bits]
    simp
  · obtain ⟨field, rfl⟩ := Nat.exists_eq_add_of_lt some
    have shift : (((0 + field + 1 : Nat) : Int) - 1075 + 1074).toNat = field := by omega
    rw [whole, same, Parts.bits, shift]
    ring

theorem partsFit {bits : UInt64} (some : magnitude bits ≠ 0) (finite : magnitude bits < infinity) : (parts bits).Fit := by
  have least : (magnitude bits).toNat ≠ 0 := fun zero => some (UInt64.toNat_inj.mp zero)
  have most : (magnitude bits).toNat < 2047 * fractionSize := finite
  obtain ⟨field, fraction, whole, small, ⟨rfl, same⟩ | ⟨raised, same⟩⟩ := partsFields bits
  all_goals
    rw [same]
    unfold fractionSize at most whole small
    constructor
  all_goals
    simp only [fractionSize]
    omega

end DebugSweep.Binary64
