import DebugSweep.Time
import Mathlib.Algebra.Order.Group.Nat
import Mathlib.Data.List.Lex

/-! The calendar. Main statements: every day lies in its year, and the dates of days, read as year, month and day,
stand in the order of the days. -/
namespace DebugSweep.Time

def daysOf : List Nat → Nat
  | [] => 0
  | length :: rest => length + daysOf rest

def yearLength (year : Nat) : Nat := daysOf (monthLengths (isLeap year))

theorem yearLengthLeap (year : Nat) : yearLength year = if isLeap year = true then 366 else 365 := by
  unfold yearLength
  cases isLeap year <;> rfl

theorem leapIff (year : Nat) : isLeap year = true ↔ 4 ∣ year ∧ (100 ∣ year → 400 ∣ year) := by
  simp only [isLeap, Bool.and_eq_true, Bool.or_eq_true, beq_iff_eq, bne_iff_ne, ne_eq, Nat.dvd_iff_mod_eq_zero]
  tauto

theorem beforeNextYear {year : Nat} (some : 1 ≤ year) :
    daysBeforeYear (year + 1) = daysBeforeYear year + yearLength year := by
  obtain ⟨before, rfl⟩ := Nat.exists_eq_add_of_le' some
  have centuryQuad : 100 ∣ before + 1 → 4 ∣ before + 1 := Nat.dvd_trans (by decide)
  have cycleCentury : 400 ∣ before + 1 → 100 ∣ before + 1 := Nat.dvd_trans (by decide)
  have under : before / 100 ≤ before := Nat.div_le_self before 100
  simp only [yearLengthLeap, leapIff, daysBeforeYear, Nat.add_sub_cancel, Nat.succ_div]
  generalize before / 4 = quads
  generalize before / 400 = cycles
  generalize before / 100 = centuries at under ⊢
  by_cases quad : 4 ∣ before + 1
  · by_cases century : 100 ∣ before + 1
    · by_cases cycle : 400 ∣ before + 1
      · rw [if_pos quad, if_pos century, if_pos cycle, if_pos ⟨quad, fun _ => cycle⟩]
        omega
      · rw [if_pos quad, if_pos century, if_neg cycle, if_neg fun leap => cycle (leap.2 century)]
        omega
    · rw [if_pos quad, if_neg century, if_neg (mt cycleCentury century), if_pos ⟨quad, fun late => absurd late century⟩]
      omega
  · have century := mt centuryQuad quad
    rw [if_neg quad, if_neg century, if_neg (mt cycleCentury century), if_neg fun leap => quad leap.1]
    omega

theorem beforeCycles {cycles centuries quads years : Nat} (few : centuries ≤ 3) (under : quads ≤ 24) (rest : years ≤ 3) :
    daysBeforeYear (400 * cycles + 100 * centuries + 4 * quads + years + 1) =
      146097 * cycles + 36524 * centuries + 1461 * quads + 365 * years := by
  have quarters : (400 * cycles + 100 * centuries + 4 * quads + years) / 4 =
      100 * cycles + 25 * centuries + quads := by omega
  have hundreds : (400 * cycles + 100 * centuries + 4 * quads + years) / 100 = 4 * cycles + centuries := by omega
  have whole : (400 * cycles + 100 * centuries + 4 * quads + years) / 400 = cycles := by omega
  unfold daysBeforeYear
  dsimp only
  rw [Nat.add_sub_cancel, quarters, hundreds, whole]
  omega

theorem cappedParts {days length : Nat} (some : 0 < length) (few : days ≤ 4 * length) :
    ∃ rest, days = length * min (days / length) 3 + rest ∧ rest ≤ length ∧ (rest = length → min (days / length) 3 = 3) := by
  have whole := Nat.div_add_mod days length
  have part := Nat.mod_lt days some
  rcases Nat.lt_or_ge (days / length) 4 with less | more
  · rw [Nat.min_eq_left (by omega)]
    exact ⟨days % length, whole.symm, Nat.le_of_lt part, by omega⟩
  · have filled := (Nat.le_div_iff_mul_le some).mp more
    rw [Nat.min_eq_right (by omega)]
    exact ⟨length, by omega, le_rfl, fun _ => rfl⟩

/-- A year lacks days behind its cycles by less than a year's length; the last day of a leap year ends them all. -/
theorem yearCycles (day : Nat) : ∃ cycles centuries quads years rest, centuries ≤ 3 ∧ quads ≤ 24 ∧ years ≤ 3 ∧
    yearOf day = 400 * cycles + 100 * centuries + 4 * quads + years + 1 ∧
    day = 146097 * cycles + 36524 * centuries + 1461 * quads + 365 * years + rest ∧
    rest ≤ 365 ∧ (rest = 365 → years = 3 ∧ (quads = 24 → centuries = 3)) := by
  have whole := Nat.div_add_mod day 146097
  obtain ⟨inCentury, split, century, endless⟩ :=
    @cappedParts (day % 146097) 36524 (by decide) (by omega)
  have centuryBehind : day % 146097 - 36524 * min (day % 146097 / 36524) 3 = inCentury := by omega
  obtain ⟨rest, split', single, ends⟩ :=
    @cappedParts (inCentury % 1461) 365 (by decide) (by omega)
  have quadBehind : inCentury - 1461 * (inCentury / 1461) = inCentury % 1461 := by omega
  have quads : inCentury / 1461 ≤ 24 := by omega
  refine ⟨day / 146097, min (day % 146097 / 36524) 3, inCentury / 1461, min (inCentury % 1461 / 365) 3, rest,
    Nat.min_le_right .., quads, Nat.min_le_right .., ?_, by omega, single, fun last => ⟨ends last, fun late => ?_⟩⟩
  · unfold yearOf
    dsimp only
    rw [centuryBehind, quadBehind]
  · have years := ends last
    exact endless (by omega)

theorem yearBounds (day : Nat) :
    daysBeforeYear (yearOf day) ≤ day ∧ day < daysBeforeYear (yearOf day + 1) := by
  obtain ⟨cycles, centuries, quads, years, rest, century, quad, single, year, whole, short, last⟩ := yearCycles day
  have leap := leapIff (yearOf day)
  rw [beforeNextYear (by omega), yearLengthLeap]
  rw [year] at leap ⊢
  rw [beforeCycles century quad single]
  refine ⟨by omega, ?_⟩
  split
  · omega
  · rename_i common
    have notLast : rest ≠ 365 := by
      intro full
      obtain ⟨rfl, late⟩ := last full
      refine common (leap.mpr ⟨by omega, fun century => ?_⟩)
      have fourth := late (by omega)
      omega
    omega

theorem beforeYearMono {year year' : Nat} (some : 1 ≤ year) (later : year ≤ year') :
    daysBeforeYear year ≤ daysBeforeYear year' := by
  induction year', later using Nat.le_induction with
  | base => exact le_rfl
  | succ year' later ih =>
    rw [beforeNextYear (by omega)]
    omega

theorem yearSome (day : Nat) : 1 ≤ yearOf day := by
  exact Nat.le_add_left 1 _

theorem yearMono {day day' : Nat} (later : day ≤ day') : yearOf day ≤ yearOf day' := by
  by_contra before
  have start := (yearBounds day).1
  have stop := (yearBounds day').2
  have between := beforeYearMono (by omega : 1 ≤ yearOf day' + 1) (by omega : yearOf day' + 1 ≤ yearOf day)
  omega

theorem yearUnder {day year : Nat} (some : 1 ≤ year) (before : day < daysBeforeYear year) : yearOf day < year := by
  by_contra later
  have start := (yearBounds day).1
  have between := beforeYearMono some (not_lt.mp later)
  omega

theorem inYear (day : Nat) : day - daysBeforeYear (yearOf day) < yearLength (yearOf day) := by
  have bounds := yearBounds day
  rw [beforeNextYear (yearSome day)] at bounds
  omega

theorem monthFrom (month day : Nat) (lengths : List Nat) : month ≤ (inMonths month day lengths).1 := by
  induction lengths generalizing month day with
  | nil => exact le_rfl
  | cons length lengths ih =>
    rw [inMonths]
    split
    · exact le_rfl
    · have later := ih (month + 1) (day - length)
      omega

theorem monthBounds (month : Nat) {day : Nat} {lengths : List Nat} (inside : day < daysOf lengths) :
    (inMonths month day lengths).1 < month + lengths.length ∧
      ∃ length ∈ lengths, (inMonths month day lengths).2 ≤ length := by
  induction lengths generalizing month day with
  | nil => simp [daysOf] at inside
  | cons length lengths ih =>
    rw [daysOf] at inside
    rw [inMonths, List.length_cons]
    split
    · rename_i here
      exact ⟨by omega, length, List.mem_cons_self, here⟩
    · obtain ⟨bound, other, member, short⟩ := ih (month + 1) (by omega : day - length < daysOf lengths)
      exact ⟨by omega, other, List.mem_cons_of_mem _ member, short⟩

def monthFields (found : Nat × Nat) : List Nat := [found.1, found.2]

theorem monthsLess (month : Nat) {day day' : Nat} (lengths : List Nat) (earlier : day < day') :
    monthFields (inMonths month day lengths) < monthFields (inMonths month day' lengths) := by
  induction lengths generalizing month day day' with
  | nil => simpa [inMonths, monthFields, List.cons_lt_cons_iff] using earlier
  | cons length lengths ih =>
    rw [inMonths, inMonths]
    split
    · split
      · simpa [monthFields, List.cons_lt_cons_iff] using earlier
      · have later := monthFrom (month + 1) (day' - length) lengths
        exact List.cons_lt_cons_iff.mpr (.inl (by omega))
    · rename_i behind
      rw [if_neg (by omega)]
      exact ih (month + 1) (by omega)

def Date.fields (date : Date) : List Nat := [date.year, date.month, date.day]

theorem dateFields (day : Nat) : (dateOf day).fields =
    yearOf day :: monthFields (inMonths 1 (day - daysBeforeYear (yearOf day)) (monthLengths (isLeap (yearOf day)))) := rfl

theorem datesLess {day day' : Nat} (earlier : day < day') : (dateOf day).fields < (dateOf day').fields := by
  rw [dateFields, dateFields, List.cons_lt_cons_iff]
  rcases (yearMono (Nat.le_of_lt earlier)).lt_or_eq with less | same
  · exact .inl less
  · have start := (yearBounds day).1
    rw [← same]
    exact .inr ⟨rfl, monthsLess 1 _ (by omega)⟩

theorem dateBounds (day : Nat) : (dateOf day).month ≤ 12 ∧ (dateOf day).day ≤ 31 := by
  obtain ⟨bound, length, member, short⟩ := monthBounds 1 (inYear day)
  have months : (monthLengths (isLeap (yearOf day))).length = 12 := rfl
  have longest : length ≤ 31 := by
    have every : ∀ leap, ∀ length ∈ monthLengths leap, length ≤ 31 := by decide
    exact every _ length member
  rw [months] at bound
  exact ⟨Nat.le_of_lt_succ bound, short.trans longest⟩

end DebugSweep.Time
