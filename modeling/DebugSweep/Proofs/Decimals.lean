import DebugSweep.Json.Reader
import DebugSweep.Json.Writer
import DebugSweep.Proofs.Rounding
import DebugSweep.Proofs.Transparency
import Mathlib.Data.Nat.Cast.Order.Field

/-! Decimal text of doubles. Main statement: the text of a double reads back as that double, whether it
is laid out with an exponent or without one. -/
namespace DebugSweep.Binary64

theorem powerOfQuotient (base : Nat) (positive : 0 < base) (exponent : Int) :
    ((powerOf base exponent).1 : ℚ) / (powerOf base exponent).2 = base ^ exponent ∧
      0 < (powerOf base exponent).1 ∧ 0 < (powerOf base exponent).2 := by
  unfold powerOf
  obtain ⟨k, rfl | rfl⟩ := exponent.eq_nat_or_neg
  · rw [if_neg (by omega)]
    exact ⟨by push_cast [Int.natAbs_natCast, Nat.pow_eq]; rw [zpow_natCast, div_one], Nat.pow_pos positive, one_pos⟩
  · rcases Nat.eq_zero_or_pos k with rfl | lower
    · simp
    · rw [if_pos (by omega)]
      refine ⟨?_, one_pos, Nat.pow_pos positive⟩
      push_cast [Int.natAbs_neg, Int.natAbs_natCast, Nat.pow_eq]
      rw [zpow_neg, zpow_natCast, one_div]

namespace Parts

/-- A quarter of the last place in the unit in which a grid is compared with the doubles. -/
def scale (p : Parts) (place : Int) : Nat := (powerOf 2 (p.exponent - 2)).1 * (powerOf 10 place).2

def step (p : Parts) (place : Int) : Nat := (powerOf 10 place).1 * (powerOf 2 (p.exponent - 2)).2

def fits (p : Parts) (place : Int) (digits : Nat) : Bool :=
  if p.span.closed then
    p.span.low * p.scale place ≤ digits * p.step place && digits * p.step place ≤ p.span.high * p.scale place
  else p.span.low * p.scale place < digits * p.step place && digits * p.step place < p.span.high * p.scale place

def floor (p : Parts) (place : Int) : Nat := p.span.value * p.scale place / p.step place

variable {p : Parts} {place : Int} {digits : Nat}

theorem stepPositive (p : Parts) (place : Int) : 0 < p.step place :=
  Nat.mul_pos (powerOfQuotient 10 (by decide) place).2.1 (powerOfQuotient 2 (by decide) (p.exponent - 2)).2.2

theorem gridUnit (p : Parts) (place : Int) : ∃ unit : ℚ, 0 < unit ∧ (p.scale place : ℚ) = unit * 2 ^ (p.exponent - 2) ∧
    (p.step place : ℚ) = unit * 10 ^ place := by
  obtain ⟨two, -, twoDen⟩ := powerOfQuotient 2 (by decide) (p.exponent - 2)
  obtain ⟨ten, -, tenDen⟩ := powerOfQuotient 10 (by decide) place
  have twoDen0 : ((powerOf 2 (p.exponent - 2)).2 : ℚ) ≠ 0 := by exact_mod_cast Nat.ne_of_gt twoDen
  have tenDen0 : ((powerOf 10 place).2 : ℚ) ≠ 0 := by exact_mod_cast Nat.ne_of_gt tenDen
  rw [div_eq_iff twoDen0] at two
  rw [div_eq_iff tenDen0] at ten
  refine ⟨(powerOf 2 (p.exponent - 2)).2 * (powerOf 10 place).2, by positivity, ?_, ?_⟩
  · rw [scale, Nat.cast_mul, two]
    push_cast
    ring
  · rw [step, Nat.cast_mul, ten]
    push_cast
    ring

theorem scaledLe {a b : Nat} : a * p.scale place ≤ b * p.step place ↔
    (a * 2 ^ (p.exponent - 2) : ℚ) ≤ b * 10 ^ place := by
  obtain ⟨unit, positive, scaled, stepped⟩ := p.gridUnit place
  rw [← Nat.cast_le (α := ℚ), Nat.cast_mul, Nat.cast_mul, scaled, stepped, mul_left_comm, mul_left_comm (b : ℚ),
    mul_le_mul_iff_right₀ positive]

theorem steppedLe {a b : Nat} : b * p.step place ≤ a * p.scale place ↔
    (b * 10 ^ place : ℚ) ≤ a * 2 ^ (p.exponent - 2) := by
  obtain ⟨unit, positive, scaled, stepped⟩ := p.gridUnit place
  rw [← Nat.cast_le (α := ℚ), Nat.cast_mul, Nat.cast_mul, scaled, stepped, mul_left_comm, mul_left_comm (a : ℚ),
    mul_le_mul_iff_right₀ positive]

theorem fitsIff : p.fits place digits = true ↔ p.Takes (digits * 10 ^ place) := by
  have closed : p.span.closed = (p.mantissa % 2 == 0) := rfl
  unfold fits Takes
  rw [closed]
  by_cases even : p.mantissa % 2 = 0
  · rw [if_pos (by simpa using even), Bool.and_eq_true, decide_eq_true_eq, decide_eq_true_eq, scaledLe, steppedLe]
    simp [even]
  · rw [if_neg (by simpa using even), Bool.and_eq_true, decide_eq_true_eq, decide_eq_true_eq, ← not_le, ← not_le,
      scaledLe, steppedLe, not_le, not_le]
    simp only [even, false_or]
    exact ⟨fun inside => ⟨inside.1.le, inside.2.le, inside⟩, fun taken => taken.2.2⟩

theorem onGridSteps (p : Parts) (place : Int) : onGrid? p place =
    (let floor := p.floor place
     let below := p.span.value * p.scale place - floor * p.step place
     let above := (floor + 1) * p.step place - p.span.value * p.scale place
     let nearer := if below < above || (below == above && floor % 2 == 0) then floor else floor + 1
     if p.fits place floor && p.fits place (floor + 1) then some nearer
     else if p.fits place floor then some floor
     else if p.fits place (floor + 1) then some (floor + 1)
     else none) := rfl

theorem onGridFits (found : onGrid? p place = some digits) : p.fits place digits = true := by
  rw [onGridSteps] at found
  dsimp only at found
  split at found
  · rename_i both
    obtain ⟨first, second⟩ := Bool.and_eq_true_iff.mp both
    split at found
    · cases found
      exact first
    · cases found
      exact second
  · split at found
    · cases found
      assumption
    · split at found
      · cases found
        assumption
      · contradiction

theorem Fit.floorFits (fit : p.Fit) (fine : (10 : ℚ) ^ place ≤ 2 ^ (p.exponent - 2)) :
    p.fits place (p.floor place) = true := by
  have under : p.floor place * p.step place ≤ p.span.value * p.scale place := Nat.div_mul_le_self _ _
  have beyond : p.span.value * p.scale place < (p.floor place + 1) * p.step place := by
    rw [mul_comm (p.floor place + 1)]
    exact Nat.lt_mul_div_succ _ (p.stepPositive place)
  have quarter : (0 : ℚ) < 2 ^ (p.exponent - 2) := by positivity
  have value : (p.span.value : ℚ) = 4 * p.mantissa := by
    unfold span
    push_cast
    rfl
  have low : (p.span.low : ℚ) ≤ 4 * p.mantissa - 1 := by
    have positive := fit.positive
    have whole : p.span.low + 1 ≤ 4 * p.mantissa := by
      unfold span
      dsimp only
      split <;> omega
    have cast : (p.span.low : ℚ) + 1 ≤ 4 * p.mantissa := by exact_mod_cast whole
    linarith
  have top : (p.floor place * 10 ^ place : ℚ) ≤ 4 * p.mantissa * 2 ^ (p.exponent - 2) := by
    rw [← value]
    exact steppedLe.mp under
  have bottom : (4 * p.mantissa * 2 ^ (p.exponent - 2) : ℚ) < (p.floor place + 1) * 10 ^ place := by
    rw [← value, ← not_le]
    intro less
    exact absurd (steppedLe.mpr (by exact_mod_cast less)) (not_le.mpr beyond)
  have near : (p.span.low * 2 ^ (p.exponent - 2) : ℚ) < p.floor place * 10 ^ place := by
    calc (p.span.low * 2 ^ (p.exponent - 2) : ℚ) ≤ (4 * p.mantissa - 1) * 2 ^ (p.exponent - 2) := by gcongr
      _ < _ := by linarith
  have far : (p.floor place * 10 ^ place : ℚ) < p.span.high * 2 ^ (p.exponent - 2) := by
    rw [p.spanHigh]
    linarith
  exact fitsIff.mpr ⟨near.le, far.le, .inr ⟨near, far⟩⟩

theorem onGridFound (fit : p.fits place (p.floor place) = true) : ∃ digits, onGrid? p place = some digits := by
  rw [onGridSteps]
  dsimp only
  rw [fit, Bool.true_and]
  split
  · exact ⟨_, rfl⟩
  · exact ⟨_, if_pos rfl⟩

theorem Fit.triesTaken (fit : p.Fit) (tries : Nat) (fine : (10 : ℚ) ^ (place - tries) ≤ 2 ^ (p.exponent - 2)) :
    p.Takes ((shortestFrom p place (tries + 1)).1 * 10 ^ (shortestFrom p place (tries + 1)).2) := by
  induction tries generalizing place with
  | zero =>
    obtain ⟨digits, found⟩ := onGridFound (fit.floorFits (by simpa using fine))
    rw [shortestFrom, found]
    exact fitsIff.mp (onGridFits found)
  | succ tries ih =>
    rw [shortestFrom]
    cases found : onGrid? p place with
    | some digits => exact fitsIff.mp (onGridFits found)
    | none =>
      have same : place - 1 - (tries : Int) = place - ((tries + 1 : Nat) : Int) := by
        push_cast
        ring
      have lower : (10 : ℚ) ^ (place - 1 - (tries : Int)) ≤ 2 ^ (p.exponent - 2) := by rwa [same]
      exact ih lower

end Parts

theorem decadeLow {num den : Nat} (some : 0 < num) (positive : 0 < den) : (10 : ℚ) ^ decade num den ≤ num / den := by
  have den0 : (0 : ℚ) < den := by exact_mod_cast positive
  have tens : (10 : ℚ) ≠ 0 := by norm_num
  unfold decade
  split
  · rename_i more
    have whole : 0 < num / den := Nat.div_pos more positive
    obtain ⟨filled, bottom, -⟩ := decimalLengthBounds whole
    have same : (decimalLength (num / den) : Int) - 1 = ((decimalLength (num / den) - 1 : Nat) : Int) := by omega
    have cast : (10 : ℚ) ^ (decimalLength (num / den) - 1) ≤ (num / den : Nat) := by exact_mod_cast bottom
    rw [same, zpow_natCast]
    exact cast.trans Nat.cast_div_le
  · rename_i less
    rw [not_le] at less
    obtain ⟨filled, bottom, -⟩ := decimalLengthBounds some
    obtain ⟨-, -, top⟩ := decimalLengthBounds positive
    dsimp only
    rw [le_div_iff₀ den0]
    split
    · rename_i reached
      rw [zpow_neg, zpow_natCast, inv_mul_le_iff₀ (by positivity), mul_comm]
      exact_mod_cast reached
    · have lengths : decimalLength num - 1 < decimalLength den :=
        (Nat.pow_lt_pow_iff_right (by decide)).mp (bottom.trans_lt (less.trans top))
      have whole : den ≤ num * 10 ^ (decimalLength den - decimalLength num + 1) := by
        calc den ≤ 10 ^ decimalLength den := top.le
          _ = 10 ^ (decimalLength num - 1) * 10 ^ (decimalLength den - decimalLength num + 1) := by
            rw [← pow_add]
            congr 1
            omega
          _ ≤ _ := Nat.mul_le_mul_right _ bottom
      have cast : (den : ℚ) ≤ num * 10 ^ (decimalLength den - decimalLength num + 1) := by exact_mod_cast whole
      rw [← Nat.cast_succ, zpow_neg, zpow_natCast, inv_mul_le_iff₀ (by positivity), mul_comm]
      exact cast

theorem Parts.Fit.shortestTaken {p : Parts} (fit : p.Fit) : p.Takes ((shortest p).1 * 10 ^ (shortest p).2) := by
  obtain ⟨two, num, den⟩ := powerOfQuotient 2 (by decide) p.exponent
  have low := decadeLow (Nat.mul_pos fit.positive num) den
  have quarter : (0 : ℚ) < 2 ^ (p.exponent - 2) := by positivity
  have small : (p.mantissa : ℚ) ≤ 2 ^ 53 := by
    have whole : p.mantissa ≤ 2 ^ 53 := fit.small.le
    exact_mod_cast whole
  rw [Nat.cast_mul, mul_div_assoc, two, Nat.cast_ofNat, p.quarters 2 (show p.exponent = _ by omega)] at low
  refine fit.triesTaken 17 ?_
  rw [zpow_sub₀ (by norm_num), div_le_iff₀ (by positivity)]
  calc _ ≤ (p.mantissa * (2 ^ 2 * 2 ^ (p.exponent - 2)) : ℚ) := low
    _ ≤ 2 ^ 53 * (2 ^ 2 * 2 ^ (p.exponent - 2)) := by gcongr
    _ = 2 ^ 55 * 2 ^ (p.exponent - 2) := by ring
    _ ≤ 2 ^ (p.exponent - 2) * 10 ^ ((17 : Nat) : Int) := by
      rw [mul_comm]
      gcongr
      norm_num

theorem Parts.Fit.takesSome {p : Parts} (fit : p.Fit) {digits : Nat} {place : Int}
    (taken : p.Takes (digits * 10 ^ place)) : 0 < digits := by
  refine Nat.pos_of_ne_zero ?_
  rintro rfl
  have low := taken.1
  have wide := fit.lowWide
  have one : (1 : ℚ) ≤ p.mantissa := by exact_mod_cast fit.positive
  have above : (0 : ℚ) < p.span.low * 2 ^ (p.exponent - 2) := mul_pos (by linarith) (by positivity)
  rw [Nat.cast_zero, zero_mul] at low
  exact absurd low (not_le.mpr above)

theorem trimmedSame (fuel digits : Nat) (place : Int) :
    ((trimZeros fuel (digits, place)).1 * 10 ^ (trimZeros fuel (digits, place)).2 : ℚ) = digits * 10 ^ place := by
  induction fuel generalizing digits place with
  | zero => rfl
  | succ fuel ih =>
    rw [trimZeros]
    split
    · rename_i zero
      obtain ⟨-, tens⟩ := Bool.and_eq_true_iff.mp zero
      have whole : digits = digits / 10 * 10 := (Nat.div_mul_cancel (Nat.dvd_of_mod_eq_zero (beq_iff_eq.mp tens))).symm
      have cast : (digits : ℚ) = (digits / 10 : Nat) * 10 := by exact_mod_cast whole
      rw [ih, cast, zpow_add₀ (by norm_num), zpow_one]
      ring
    · rfl

theorem magnitudeBit : ∀ i < 64, (0x7fffffffffffffff#64).getLsbD i = decide (i < 63) := by decide

theorem signBit : ∀ i < 64, (0x8000000000000000#64).getLsbD i = decide (i = 63) := by decide

theorem signApart {bits : UInt64} (below : isNegative bits = true) : bits.toBitVec.getLsbD 63 = true := by
  by_contra clear
  have same : magnitude bits = bits := by
    apply UInt64.toBitVec_inj.mp
    refine BitVec.eq_of_getLsbD_eq fun i small => ?_
    change (bits.toBitVec &&& 0x7fffffffffffffff#64).getLsbD i = _
    rw [BitVec.getLsbD_and, magnitudeBit i small]
    rcases Nat.lt_or_eq_of_le (Nat.le_of_lt_succ small) with less | rfl
    · simp [less]
    · simpa using clear
  simp [isNegative, same] at below

theorem negateMagnitude {bits : UInt64} (below : isNegative bits = true) : negate (magnitude bits) = bits := by
  apply UInt64.toBitVec_inj.mp
  refine BitVec.eq_of_getLsbD_eq fun i small => ?_
  change ((bits.toBitVec &&& 0x7fffffffffffffff#64) ^^^ 0x8000000000000000#64).getLsbD i = _
  rw [BitVec.getLsbD_xor, BitVec.getLsbD_and, magnitudeBit i small, signBit i small]
  rcases Nat.lt_or_eq_of_le (Nat.le_of_lt_succ small) with less | rfl
  · simp [less, Nat.ne_of_lt less]
  · simp [signApart below]

end DebugSweep.Binary64

namespace DebugSweep.Json
open Binary64

theorem digitRead {c : Char} : isDigit c = c.isDigit := by
  simp [isDigit, Char.isDigit, Char.le_def, ge_iff_le]

theorem natOfChars (digits : List Char) : natOf digits = Nat.ofDigitChars 10 digits 0 := by
  unfold natOf Nat.ofDigitChars
  congr 1
  funext total c
  rw [mul_comm]
  rfl

theorem natOfText (n : Nat) : natOf (Nat.toDigits 10 n) = n := by
  rw [natOfChars, Nat.ofDigitChars_toDigits (by decide) (by decide)]

theorem natOfLeading (k : Nat) (digits : List Char) : natOf (zeros k ++ digits) = natOf digits := by
  rw [natOfChars, natOfChars, Nat.ofDigitChars_append, zeros, Nat.ofDigitChars_replicate_zero, mul_zero]

theorem natOfTrailing (k : Nat) (digits : List Char) : natOf (digits ++ zeros k) = natOf digits * 10 ^ k := by
  rw [natOfChars, natOfChars, Nat.ofDigitChars_append, zeros, Nat.ofDigitChars_replicate_zero, mul_comm]

def Digits (text : List Char) : Prop := ∀ c ∈ text, isDigit c = true

theorem Digits.append {text more : List Char} (front : Digits text) (back : Digits more) : Digits (text ++ more) :=
  fun c member => (List.mem_append.mp member).elim (front c) (back c)

theorem textDigits (n : Nat) : Digits (Nat.toDigits 10 n) := fun c member => by
  rw [digitRead]
  exact Nat.isDigit_of_mem_toDigits (by decide) (by decide) member

theorem zerosDigits (k : Nat) : Digits (zeros k) := fun c member => by
  rw [List.eq_of_mem_replicate member]
  rfl

theorem textLead {n : Nat} (some : 0 < n) : ∃ d rest, Nat.toDigits 10 n = d :: rest ∧ d ≠ '0' := by
  induction n using Nat.strong_induction_on with
  | _ n ih =>
    rw [Nat.toDigits_eq_if (by decide)]
    split
    · rename_i small
      have lead : ∀ n < 10, 0 < n → n.digitChar ≠ '0' := by decide
      exact ⟨_, [], rfl, lead n small some⟩
    · rename_i large
      obtain ⟨d, rest, same, other⟩ := ih (n / 10) (Nat.div_lt_self some (by decide)) (by omega)
      exact ⟨d, rest ++ [(n % 10).digitChar], by rw [same, List.cons_append], other⟩

/-- A number ends before this text: none of the characters follows that would go on with it. -/
def Stops (rest : List Char) : Prop := ∀ c ∈ rest.head?, isDigit c = false ∧ c ≠ '.' ∧ c ≠ 'e' ∧ c ≠ 'E'

def Breaks (rest : List Char) : Prop := ∀ c ∈ rest.head?, isDigit c = false

theorem takeDigits {text rest : List Char} (digits : Digits text) (breaks : Breaks rest) :
    (text ++ rest).takeWhile isDigit = text ∧ (text ++ rest).dropWhile isDigit = rest := by
  have here : rest.takeWhile isDigit = [] ∧ rest.dropWhile isDigit = rest := by
    cases rest with
    | nil => exact ⟨rfl, rfl⟩
    | cons c rest =>
      have other := breaks c rfl
      exact ⟨List.takeWhile_cons_of_neg (by simp [other]), List.dropWhile_cons_of_neg (by simp [other])⟩
  rw [List.takeWhile_append_of_pos digits, List.dropWhile_append_of_pos digits, here.1, here.2]
  exact ⟨List.append_nil _, rfl⟩

def signed (negative : Bool) (bits : UInt64) : UInt64 := if negative then negate bits else bits

def readBehind (negative : Bool) (whole rest : List Char) : Read Value :=
  let (fraction, rest₁) := readFraction rest
  let (exponent, rest₂) := readExponent rest₁
  if fraction.isNone && exponent.isNone then
    if digitLimit < whole.length then .error (.longNumber whole.length)
    else
      let size : Int := natOf whole
      .ok (.int (if negative then -size else size), rest₂)
  else
    let places := fraction.getD []
    let bits := Binary64.ofDecimal (natOf (whole ++ places)) (exponent.getD 0 - places.length)
    .ok (.real (if negative then Binary64.negate bits else bits), rest₂)

def wholePart : List Char → List Char
  | '0' :: _ => ['0']
  | text => text.takeWhile isDigit

def Leads (whole : List Char) : Prop := whole = ['0'] ∨ ∃ d more, whole = d :: more ∧ d ≠ '0'

theorem readNumberParts (negative : Bool) (text : List Char) : readNumber negative text =
    if (wholePart text).isEmpty then .error .malformed
    else readBehind negative (wholePart text) (text.drop (wholePart text).length) := by
  unfold readNumber
  split
  · rfl
  · rename_i other
    have same : wholePart text = text.takeWhile isDigit := by
      unfold wholePart
      split
      · exact absurd rfl (other _)
      · rfl
    rw [same]
    rfl

theorem wholeRead {whole rest : List Char} (digits : Digits whole) (leads : Leads whole) (breaks : Breaks rest)
    (negative : Bool) : readNumber negative (whole ++ rest) = readBehind negative whole rest := by
  have taken : wholePart (whole ++ rest) = whole := by
    rcases leads with rfl | ⟨d, more, rfl, other⟩
    · rfl
    · have here := (takeDigits digits breaks).1
      unfold wholePart
      split
      · rename_i same
        exact absurd (List.cons.inj same).1 other
      · exact here
  have filled : whole.isEmpty = false := by
    rcases leads with rfl | ⟨d, more, rfl, -⟩ <;> rfl
  rw [readNumberParts, taken, List.drop_left, filled]
  rfl

theorem fractionRead {places rest : List Char} (digits : Digits places) (filled : places ≠ []) (breaks : Breaks rest) :
    readFraction ('.' :: (places ++ rest)) = (some places, rest) := by
  obtain ⟨taken, left⟩ := takeDigits digits breaks
  change (if ((places ++ rest).takeWhile isDigit).isEmpty then _ else _) = _
  rw [taken, left, if_neg (by simpa using filled)]

theorem fractionNone {rest : List Char} (other : ∀ c ∈ rest.head?, c ≠ '.') : readFraction rest = (none, rest) := by
  unfold readFraction
  split
  · exact absurd rfl (other '.' rfl)
  · rfl

theorem exponentDigits (exponent : Int) : ∃ digits, Digits digits ∧ digits ≠ [] ∧ natOf digits = exponent.natAbs ∧
    exponentText exponent = 'e' :: (if exponent < 0 then '-' else '+') :: digits := by
  refine ⟨_, (zerosDigits _).append (textDigits _), ?_, ?_, rfl⟩
  · exact List.append_ne_nil_of_right_ne_nil _ Nat.toDigits_ne_nil
  · rw [natOfLeading, natOfText]

theorem exponentRead {rest : List Char} (exponent : Int) (breaks : Breaks rest) :
    readExponent (exponentText exponent ++ rest) = (some exponent, rest) := by
  obtain ⟨digits, each, filled, size, same⟩ := exponentDigits exponent
  obtain ⟨taken, left⟩ := takeDigits each breaks
  have full : digits.isEmpty = false := by simpa using filled
  rw [same]
  split
  · change (if ((digits ++ rest).takeWhile isDigit).isEmpty then _ else
      (some (-(natOf ((digits ++ rest).takeWhile isDigit) : Int)), (digits ++ rest).dropWhile isDigit)) = _
    rw [taken, left, full, size, if_neg Bool.false_ne_true]
    congr 2
    omega
  · change (if ((digits ++ rest).takeWhile isDigit).isEmpty then _ else
      (some (natOf ((digits ++ rest).takeWhile isDigit) : Int), (digits ++ rest).dropWhile isDigit)) = _
    rw [taken, left, full, size, if_neg Bool.false_ne_true]
    congr 2
    omega

theorem exponentNone {rest : List Char} (other : ∀ c ∈ rest.head?, c ≠ 'e' ∧ c ≠ 'E') : readExponent rest = (none, rest) := by
  unfold readExponent
  split
  · rename_i e more
    obtain ⟨low, high⟩ := other e rfl
    rw [if_neg (by simp [low, high])]
  · rfl

section
variable {whole places rest : List Char} {negative : Bool}

theorem Stops.breaks (stops : Stops rest) : Breaks rest := fun c first => (stops c first).1

theorem pointRead (digits : Digits whole) (leads : Leads whole) (each : Digits places) (filled : places ≠ [])
    (stops : Stops rest) (negative : Bool) : readNumber negative (whole ++ '.' :: (places ++ rest)) =
      .ok (.real (signed negative (ofDecimal (natOf (whole ++ places)) (-places.length))), rest) := by
  rw [wholeRead digits leads (by rintro c ⟨⟩; rfl), readBehind, fractionRead each filled stops.breaks]
  dsimp only
  rw [exponentNone fun c first => (stops c first).2.2]
  simp [signed]

theorem powerRead (digits : Digits whole) (leads : Leads whole) (exponent : Int) (stops : Stops rest) (negative : Bool) :
    readNumber negative (whole ++ (exponentText exponent ++ rest)) =
      .ok (.real (signed negative (ofDecimal (natOf whole) exponent)), rest) := by
  have mark : ∀ c ∈ (exponentText exponent ++ rest).head?, c = 'e' := by
    rintro c ⟨⟩
    rfl
  rw [wholeRead digits leads fun c first => mark c first ▸ rfl, readBehind,
    fractionNone fun c first => mark c first ▸ by decide]
  dsimp only
  rw [exponentRead exponent stops.breaks]
  simp [signed]

theorem pointPowerRead (digits : Digits whole) (leads : Leads whole) (each : Digits places) (filled : places ≠ [])
    (exponent : Int) (stops : Stops rest) (negative : Bool) :
    readNumber negative (whole ++ '.' :: (places ++ (exponentText exponent ++ rest))) =
      .ok (.real (signed negative (ofDecimal (natOf (whole ++ places)) (exponent - places.length))), rest) := by
  rw [wholeRead digits leads (by rintro c ⟨⟩; rfl), readBehind, fractionRead each filled (by rintro c ⟨⟩; rfl)]
  dsimp only
  rw [exponentRead exponent stops.breaks]
  simp [signed]

def ReadsAs (negative : Bool) (text rest : List Char) (size : ℚ) : Prop :=
  ∃ (digits : Nat) (place : Int), (digits * 10 ^ place : ℚ) = size ∧
    readNumber negative text = .ok (.real (signed negative (ofDecimal digits place)), rest)

variable {d : Char} {more : List Char}

theorem Digits.head (each : Digits (d :: more)) : Digits [d] := fun c member => by
  obtain rfl := List.mem_singleton.mp member
  exact each c List.mem_cons_self

theorem Digits.tail (each : Digits (d :: more)) : Digits more := fun c member => each c (List.mem_cons_of_mem _ member)

theorem powerLayoutRead (each : Digits (d :: more)) (other : d ≠ '0') {exponent : Int}
    (far : (decide (exponent < -4) || decide (16 ≤ exponent)) = true) (stops : Stops rest) (negative : Bool) :
    ReadsAs negative (layOut (d :: more) exponent ++ rest) rest
      (natOf (d :: more) * 10 ^ (exponent + 1 - (d :: more).length)) := by
  unfold layOut
  rw [if_pos far]
  cases more with
  | nil => exact ⟨_, exponent, by simp, powerRead each (.inr ⟨d, [], rfl, other⟩) exponent stops negative⟩
  | cons next more =>
    refine ⟨natOf (d :: next :: more), exponent - (next :: more).length, ?_, ?_⟩
    · congr 2
      push_cast [List.length_cons]
      ring
    · have read := pointPowerRead each.head (.inr ⟨d, [], rfl, other⟩) each.tail (by simp) exponent stops negative
      rw [List.singleton_append, List.singleton_append] at read
      rw [← read]
      simp

theorem smallLayoutRead (each : Digits (d :: more)) {exponent : Int}
    (near : ¬ (decide (exponent < -4) || decide (16 ≤ exponent)) = true) (below : exponent < 0) (stops : Stops rest)
    (negative : Bool) : ReadsAs negative (layOut (d :: more) exponent ++ rest) rest
      (natOf (d :: more) * 10 ^ (exponent + 1 - (d :: more).length)) := by
  unfold layOut
  rw [if_neg near, if_pos below]
  have zero : Digits ['0'] := zerosDigits 1
  refine ⟨natOf (d :: more), exponent + 1 - (d :: more).length, rfl, ?_⟩
  have read := pointRead zero (.inl rfl) ((zerosDigits (exponent.natAbs - 1)).append each) (by simp) stops negative
  have size : natOf (['0'] ++ (zeros (exponent.natAbs - 1) ++ d :: more)) = natOf (d :: more) := by
    rw [← List.append_assoc]
    exact natOfLeading (exponent.natAbs - 1 + 1) (d :: more)
  have place : (-((zeros (exponent.natAbs - 1) ++ d :: more).length : Int)) = exponent + 1 - (d :: more).length := by
    rw [List.length_append, zeros, List.length_replicate]
    push_cast
    omega
  rw [size, place] at read
  exact read

theorem plainLayoutRead (each : Digits (d :: more)) (other : d ≠ '0') {exponent : Int}
    (near : ¬ (decide (exponent < -4) || decide (16 ≤ exponent)) = true) (above : ¬ exponent < 0) (stops : Stops rest)
    (negative : Bool) : ReadsAs negative (layOut (d :: more) exponent ++ rest) rest
      (natOf (d :: more) * 10 ^ (exponent + 1 - (d :: more).length)) := by
  unfold layOut
  rw [if_neg near, if_neg above]
  dsimp only
  split
  · rename_i short
    have place : exponent + 1 - (d :: more).length = ((exponent.toNat + 1 - (d :: more).length : Nat) : Int) := by omega
    rw [place, zpow_natCast]
    generalize exponent.toNat + 1 - (d :: more).length = fill
    have zero : Digits ['0'] := zerosDigits 1
    have read := pointRead (each.append (zerosDigits fill)) (.inr ⟨d, _, rfl, other⟩) zero (by simp) stops negative
    have size : natOf (d :: more ++ zeros fill ++ ['0']) = natOf (d :: more) * 10 ^ fill * 10 := by
      have longer : zeros fill ++ ['0'] = zeros (fill + 1) := List.replicate_succ'.symm
      rw [List.append_assoc, longer, natOfTrailing, pow_succ, mul_assoc]
    refine ⟨natOf (d :: more) * 10 ^ fill * 10, -1, ?_, ?_⟩
    · push_cast
      rw [zpow_neg_one, mul_inv_cancel_right₀ (by norm_num)]
    · rw [size] at read
      simpa using read
  · rename_i long
    have front : Digits ((d :: more).take (exponent.toNat + 1)) := fun c member => each c (List.mem_of_mem_take member)
    have back : Digits ((d :: more).drop (exponent.toNat + 1)) := fun c member => each c (List.mem_of_mem_drop member)
    have filled : (d :: more).drop (exponent.toNat + 1) ≠ [] := by
      rw [ne_eq, List.drop_eq_nil_iff]
      exact long
    have read := pointRead front (.inr ⟨d, _, List.take_succ_cons, other⟩) back filled stops negative
    have place : (-((d :: more).drop (exponent.toNat + 1)).length : Int) = exponent + 1 - (d :: more).length := by
      rw [List.length_drop]
      omega
    rw [List.take_append_drop, place] at read
    refine ⟨natOf (d :: more), _, rfl, ?_⟩
    rw [← read]
    simp

end

theorem layOutRead {n : Nat} (some : 0 < n) (exponent : Int) {rest : List Char} (stops : Stops rest) (negative : Bool) :
    ReadsAs negative (layOut (Nat.toDigits 10 n) exponent ++ rest) rest
      (n * 10 ^ (exponent + 1 - (Nat.toDigits 10 n).length)) := by
  obtain ⟨d, more, spelled, other⟩ := textLead some
  have each := textDigits n
  have size := natOfText n
  rw [spelled] at each size ⊢
  rw [← size]
  by_cases far : (decide (exponent < -4) || decide (16 ≤ exponent)) = true
  · exact powerLayoutRead each other far stops negative
  · by_cases below : exponent < 0
    · exact smallLayoutRead each far below stops negative
    · exact plainLayoutRead each other far below stops negative

theorem finiteRead {bits : UInt64} (finite : magnitude bits < infinity) {rest : List Char} (stops : Stops rest)
    (negative : Bool) :
    readNumber negative (magnitudeText bits ++ rest) = .ok (.real (signed negative (magnitude bits)), rest) := by
  unfold magnitudeText
  split
  · rename_i zero
    have same : magnitude bits = 0 := beq_iff_eq.mp zero
    have digit : Digits ['0'] := zerosDigits 1
    have read := pointRead digit (.inl rfl) digit (by simp) stops negative
    rw [same]
    exact read
  · rename_i some
    have fit := partsFit (fun zero => some (beq_iff_eq.mpr zero)) finite
    have taken := fit.shortestTaken
    have same := trimmedSame 20 (shortest (parts bits)).1 (shortest (parts bits)).2
    generalize trimZeros 20 (shortest (parts bits)) = trimmed at same ⊢
    obtain ⟨n, place⟩ := trimmed
    dsimp only at same ⊢
    rw [← same] at taken
    obtain ⟨digits, place', size, read⟩ := layOutRead (fit.takesSome taken) (place + (Nat.toDigits 10 n).length - 1) stops negative
    rw [sub_add_cancel, add_sub_cancel_right] at size
    rw [← size] at taken
    rw [read, ofDecimalTaken fit (fit.takesSome taken) taken, partsBits]
    simp

theorem numberStarts {negative : Bool} {text : List Char} {found : Value × List Char}
    (read : readNumber negative text = .ok found) : ∃ d more, text = d :: more ∧ isDigit d = true := by
  rw [readNumberParts] at read
  split at read
  · contradiction
  · rename_i filled
    cases text with
    | nil => exact absurd rfl filled
    | cons d more =>
      refine ⟨d, more, rfl, ?_⟩
      by_contra other
      refine filled ?_
      unfold wholePart
      split
      · rename_i same
        obtain rfl := (List.cons.inj same).1
        exact absurd rfl other
      · rw [List.takeWhile_cons_of_neg other]
        rfl

theorem digitNoWord {d : Char} (digit : isDigit d = true) (more : List Char) :
    readWord? (d :: more) = none ∧ readWord? ('-' :: d :: more) = none := by
  have apart : ∀ c ∈ ['n', 't', 'f', 'N', 'I'], c ≠ d := by
    have letters : ∀ c ∈ ['n', 't', 'f', 'N', 'I'], isDigit c = false := by simp [isDigit]
    rintro c member rfl
    exact absurd ((letters c member).symm.trans digit) Bool.false_ne_true
  simp only [List.forall_mem_cons, List.not_mem_nil, false_imp_iff, implies_true, and_true] at apart
  obtain ⟨n, t, f, N, I⟩ := apart
  have minus : '-' ≠ d := by
    rintro rfl
    contradiction
  constructor
  · simp [readWord?, words, dropWord?, n, t, f, N, I, minus]
  · simp [readWord?, words, dropWord?, I]

theorem valueNumber {d : Char} (digit : isDigit d = true) (more : List Char) (fuel : Nat) :
    readValue (fuel + 1) (d :: more) = readNumber false (d :: more) ∧
      readValue (fuel + 1) ('-' :: d :: more) = readNumber true (d :: more) := by
  obtain ⟨plain, below⟩ := digitNoWord digit more
  constructor
  · rw [readValue, plain]
    all_goals
      intro rest same
      obtain ⟨rfl, -⟩ := List.cons.inj same
      contradiction
  · rw [readValue, below]

/-- A double that its text can give back: every number, but of the doubles that are none only the one that is read. -/
def Readable (bits : UInt64) : Prop := isNaN bits = false ∨ bits = quietNaN

theorem realRead {bits : UInt64} (readable : Readable bits) {rest : List Char} (stops : Stops rest) (fuel : Nat) :
    readValue (fuel + 1) ((realText bits).toList ++ rest) = .ok (.real bits, rest) := by
  have word {text : List Char} {value : Value} (found : readWord? text = some (value, rest)) :
      readValue (fuel + 1) text = .ok (value, rest) := by
    unfold readValue
    rw [found]
  unfold realText
  split
  · rename_i none
    obtain rfl : bits = quietNaN := readable.resolve_left (by simp [none])
    exact word rfl
  · rename_i number
    split
    · rename_i endless
      have same : magnitude bits = infinity := beq_iff_eq.mp endless
      split
      · rename_i below
        rw [← negateMagnitude below, same]
        exact word rfl
      · rename_i above
        have positive : bits = magnitude bits := by simpa [isNegative] using above
        rw [positive, same]
        exact word rfl
    · rename_i bounded
      have most : ¬ infinity < magnitude bits := by simpa [isNaN] using number
      have other : magnitude bits ≠ infinity := by simpa using bounded
      have finite : magnitude bits < infinity := UInt64.lt_of_le_of_ne (UInt64.not_lt.mp most) other
      rw [String.toList_ofList]
      unfold text
      split
      · rename_i below
        have read := finiteRead finite stops true
        obtain ⟨d, more, spelled, digit⟩ := numberStarts read
        rw [List.cons_append, spelled, (valueNumber digit more fuel).2, ← spelled, read]
        simp [signed, negateMagnitude below]
      · rename_i above
        have positive : bits = magnitude bits := by simpa [isNegative] using above
        have read := finiteRead finite stops false
        obtain ⟨d, more, spelled, digit⟩ := numberStarts read
        rw [spelled, (valueNumber digit more fuel).1, ← spelled, read]
        simp [signed, ← positive]

theorem naturalRead {n : Nat} (short : (Nat.toDigits 10 n).length ≤ digitLimit) {rest : List Char} (stops : Stops rest)
    (negative : Bool) :
    readNumber negative (Nat.toDigits 10 n ++ rest) = .ok (.int (if negative then -(n : Int) else n), rest) := by
  have leads : Leads (Nat.toDigits 10 n) := by
    rcases Nat.eq_zero_or_pos n with rfl | some
    · exact .inl rfl
    · exact .inr (textLead some)
  rw [wholeRead (textDigits n) leads stops.breaks, readBehind, fractionNone fun c first => (stops c first).2.1]
  dsimp only
  rw [exponentNone fun c first => (stops c first).2.2]
  dsimp only
  rw [if_neg (not_lt.mpr short), natOfText]
  rfl

theorem intRead {n : Int} (short : (Nat.toDigits 10 n.natAbs).length ≤ digitLimit) {rest : List Char} (stops : Stops rest)
    (fuel : Nat) : readValue (fuel + 1) ((toString n).toList ++ rest) = .ok (.int n, rest) := by
  cases n with
  | ofNat n =>
    have read : readNumber false (Nat.toDigits 10 n ++ rest) = .ok (.int n, rest) := naturalRead short stops false
    obtain ⟨d, more, spelled, digit⟩ := numberStarts read
    change readValue (fuel + 1) ((toString (n : Int)).toList ++ rest) = _
    rw [natText, spelled, (valueNumber digit more fuel).1, ← spelled, read]
    rfl
  | negSucc n =>
    have read : readNumber true (Nat.toDigits 10 (n + 1) ++ rest) = .ok (.int (Int.negSucc n), rest) :=
      naturalRead short stops true
    obtain ⟨d, more, spelled, digit⟩ := numberStarts read
    rw [negativeText, List.cons_append, spelled, (valueNumber digit more fuel).2, ← spelled, read]

end DebugSweep.Json
