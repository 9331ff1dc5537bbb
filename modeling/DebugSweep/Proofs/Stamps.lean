import DebugSweep.Journal.Log
import DebugSweep.Proofs.Calendar
import Mathlib.Data.String.Basic

/-! Stamps in order. Main statement: the stamps of two instants of the years 1 to 9999 compare as the instants do, cut to
milliseconds, and so the records since a stamp are those since its instant. -/
namespace DebugSweep.Time

theorem appendLess {α : Type} [LT α] {a b : List α} (size : a.length = b.length) (less : a < b) (x y : List α) :
    a ++ x < b ++ y := by
  induction a generalizing b with
  | nil =>
    cases List.eq_nil_of_length_eq_zero size.symm
    exact absurd less (List.not_lt_nil [])
  | cons c a ih =>
    obtain ⟨d, b, rfl⟩ := List.exists_cons_of_length_eq_add_one size.symm
    rw [List.cons_append, List.cons_append, List.cons_lt_cons_iff]
    rcases List.cons_lt_cons_iff.mp less with first | ⟨same, rest⟩
    · exact .inl first
    · exact .inr ⟨same, ih (Nat.succ.inj size) rest⟩

theorem paddedOne {n : Nat} (small : n < 10) : padded 1 n = [n.digitChar] := by
  rw [padded, Nat.toDigits_of_lt_base small]
  rfl

theorem paddedNext (width n : Nat) : padded (width + 2) n = padded (width + 1) (n / 10) ++ [(n % 10).digitChar] := by
  unfold padded
  dsimp only
  rw [Nat.toDigits_eq_if (by decide : 1 < 10)]
  split
  · rename_i small
    rw [Nat.div_eq_of_lt small, Nat.mod_eq_of_lt small, Nat.toDigits_of_lt_base (by decide : 0 < 10)]
    have zero : (0 : Nat).digitChar = '0' := rfl
    simp [zero, ← List.replicate_succ']
  · simp

theorem paddedLength {width n : Nat} (fits : n < 10 ^ (width + 1)) : (padded (width + 1) n).length = width + 1 := by
  induction width generalizing n with
  | zero => rw [paddedOne fits, List.length_singleton]
  | succ width ih =>
    rw [paddedNext, List.length_append, ih (by omega), List.length_singleton]

theorem digitsLess {m n : Nat} (less : m < n) (small : n < 10) : m.digitChar < n.digitChar := by
  rw [Char.lt_def, UInt32.lt_iff_toNat_lt]
  change m.digitChar.toNat < n.digitChar.toNat
  rw [Nat.toNat_digitChar_of_lt_ten small, Nat.toNat_digitChar_of_lt_ten (less.trans small)]
  exact Nat.add_lt_add_left less 48

theorem paddedLess {width m n : Nat} (less : m < n) (fits : n < 10 ^ (width + 1)) :
    padded (width + 1) m < padded (width + 1) n := by
  induction width generalizing m n with
  | zero =>
    rw [paddedOne fits, paddedOne (less.trans fits)]
    exact List.cons_lt_cons_iff.mpr (.inl (digitsLess less fits))
  | succ width ih =>
    rw [paddedNext, paddedNext]
    rcases Nat.lt_or_ge (m / 10) (n / 10) with front | back
    · refine appendLess ?_ (ih front (by omega)) _ _
      rw [paddedLength (by omega), paddedLength (by omega)]
    · have same : m / 10 = n / 10 := by omega
      rw [same]
      exact List.append_left_lt (List.cons_lt_cons_iff.mpr (.inl (digitsLess (by omega) (by omega))))

/-- Numbers one behind the other, each in so many digits more than one and with a mark behind it. -/
def laid : List (Nat × Char) → List Nat → List Char
  | (width, mark) :: layout, n :: fields => padded (width + 1) n ++ mark :: laid layout fields
  | _, _ => []

inductive Fits : List (Nat × Char) → List Nat → Prop where
  | nil : Fits [] []
  | cons {width n : Nat} {layout : List (Nat × Char)} {fields : List Nat} (mark : Char) (here : n < 10 ^ (width + 1))
      (later : Fits layout fields) : Fits ((width, mark) :: layout) (n :: fields)

-- All numbers of a field have one width, so that the first field that differs decides.
theorem laidLess {layout : List (Nat × Char)} {fields fields' : List Nat} (fits : Fits layout fields)
    (fits' : Fits layout fields') (less : fields < fields') : laid layout fields < laid layout fields' := by
  induction fits generalizing fields' with
  | nil =>
    cases fits'
    exact absurd less (List.not_lt_nil [])
  | cons mark here later ih =>
    cases fits' with
    | cons mark here' later' =>
      rw [laid, laid]
      rcases List.cons_lt_cons_iff.mp less with first | ⟨rfl, rest⟩
      · exact appendLess ((paddedLength here).trans (paddedLength here').symm) (paddedLess first here') _ _
      · exact List.append_left_lt (List.cons_lt_cons_iff.mpr (.inr ⟨rfl, ih later' rest⟩))

def clockFields (inDay : Nat) : List Nat :=
  [inDay / 3600000, inDay / 60000 % 60, inDay / 1000 % 60, inDay % 1000]

def stampFields (millis : Nat) : List Nat := (dateOf (millis / 86400000)).fields ++ clockFields (millis % 86400000)

def stampLayout : List (Nat × Char) :=
  [(3, '-'), (1, '-'), (1, 'T'), (1, ':'), (1, ':'), (1, '.'), (2, 'Z')]

theorem clockLess {inDay inDay' : Nat} (earlier : inDay < inDay') : clockFields inDay < clockFields inDay' := by
  have hours : inDay / 3600000 = inDay / 60000 / 60 := by omega
  have hours' : inDay' / 3600000 = inDay' / 60000 / 60 := by omega
  have minutes : inDay / 60000 = inDay / 1000 / 60 := by omega
  have minutes' : inDay' / 60000 = inDay' / 1000 / 60 := by omega
  simp only [clockFields, List.cons_lt_cons_iff, List.not_lt_nil, and_false, or_false]
  omega

theorem fieldsLess {millis millis' : Nat} (earlier : millis < millis') : stampFields millis < stampFields millis' := by
  unfold stampFields
  rcases Nat.lt_or_ge (millis / 86400000) (millis' / 86400000) with day | day
  · refine appendLess ?_ (datesLess day) _ _
    rfl
  · rw [show millis / 86400000 = millis' / 86400000 by omega]
    exact List.append_left_lt (clockLess (by omega))

theorem stampFits {millis : Nat} (dated : millis / 86400000 < daysBeforeYear 10000) :
    Fits stampLayout (stampFields millis) := by
  have year := yearUnder (by decide) dated
  obtain ⟨month, day⟩ := dateBounds (millis / 86400000)
  have inDay := Nat.mod_lt millis (by decide : 86400000 > 0)
  exact .cons '-' year (.cons '-' (by omega) (.cons 'T' (by omega) (.cons ':' (by omega) (.cons ':' (by omega)
    (.cons '.' (by omega) (.cons 'Z' (by omega) .nil))))))

def millisOf (micros : Int) : Nat := (micros.fdiv 1000 + (epochDay * 86400000 : Nat)).toNat

def Dated (micros : Int) : Prop :=
  0 ≤ micros + (epochDay * 86400000000 : Nat) ∧
    micros + (epochDay * 86400000000 : Nat) < (daysBeforeYear 10000 * 86400000000 : Nat)

instance (micros : Int) : Decidable (Dated micros) := inferInstanceAs (Decidable (_ ∧ _))

section
variable {micros micros' : Int}

theorem Dated.millis (dated : Dated micros) : (millisOf micros : Int) = micros.fdiv 1000 + (epochDay * 86400000 : Nat) := by
  have start := dated.1
  rw [Int.fdiv_eq_ediv_of_nonneg micros (by decide : (0 : Int) ≤ 1000)]
  rw [millisOf, Int.fdiv_eq_ediv_of_nonneg micros (by decide : (0 : Int) ≤ 1000)]
  omega

theorem Dated.inYears (dated : Dated micros) : millisOf micros / 86400000 < daysBeforeYear 10000 := by
  have millis := dated.millis
  have stop := dated.2
  rw [Int.fdiv_eq_ediv_of_nonneg micros (by decide : (0 : Int) ≤ 1000)] at millis
  omega

theorem stampLaid (dated : Dated micros) : stampChars micros = laid stampLayout (stampFields (millisOf micros)) := by
  have millis := dated.millis
  have inDay : ((millisOf micros : Int) % 86400000).toNat = millisOf micros % 86400000 := by omega
  have day : ((millisOf micros : Int) / 86400000).toNat = millisOf micros / 86400000 := by omega
  unfold stampChars
  dsimp only
  rw [← millis, inDay, day]
  simp [laid, stampLayout, stampFields, Date.fields, clockFields]

theorem stampLess (dated : Dated micros) (dated' : Dated micros') (earlier : micros.fdiv 1000 < micros'.fdiv 1000) :
    stamp micros < stamp micros' := by
  have millis := dated.millis
  have millis' := dated'.millis
  rw [String.lt_iff_toList_lt, stamp, stamp, String.toList_ofList, String.toList_ofList, stampLaid dated, stampLaid dated']
  exact laidLess (stampFits dated.inYears) (stampFits dated'.inYears) (fieldsLess (by omega))

theorem stampSame (same : micros.fdiv 1000 = micros'.fdiv 1000) : stamp micros = stamp micros' := by
  rw [stamp, stamp, stampChars, stampChars, same]

theorem stampLeIff (dated : Dated micros) (dated' : Dated micros') :
    stamp micros ≤ stamp micros' ↔ micros.fdiv 1000 ≤ micros'.fdiv 1000 := by
  constructor
  · intro before
    by_contra later
    exact not_lt.mpr before (stampLess dated' dated (Int.not_le.mp later))
  · intro before
    rcases Int.lt_or_eq_of_le before with earlier | same
    · exact (stampLess dated dated' earlier).le
    · exact (stampSame same).le

theorem stampsChronological (dated : Dated micros) (dated' : Dated micros') :
    (micros ≤ micros' → stamp micros ≤ stamp micros') ∧
      (stamp micros = stamp micros' ↔ micros.fdiv 1000 = micros'.fdiv 1000) ∧
      ∀ record, record.field? "timestamp" = some (.text (stamp micros')) →
        (Journal.stampedSince (stamp micros) record = true ↔ micros.fdiv 1000 ≤ micros'.fdiv 1000) := by
  refine ⟨fun before => (stampLeIff dated dated').mpr ?_, ⟨fun same => ?_, stampSame⟩, fun record stamped => ?_⟩
  · rw [Int.fdiv_eq_ediv_of_nonneg _ (by decide), Int.fdiv_eq_ediv_of_nonneg _ (by decide)]
    omega
  · exact Int.le_antisymm ((stampLeIff dated dated').mp same.le) ((stampLeIff dated' dated).mp same.ge)
  · rw [Journal.stampedSince, stamped, ← stampLeIff dated dated']
    exact decide_eq_true_iff

end

def leapDay : Int := 951782400000000

theorem stampsAroundEpoch : Dated (-1) ∧ Dated leapDay ∧ stamp (-1) ≤ stamp leapDay ∧ stamp (-1) ≠ stamp leapDay ∧
    Journal.stampedSince (stamp (-1)) (.record [("timestamp", .text (stamp leapDay))]) = true ∧
    Journal.stampedSince (stamp leapDay) (.record [("timestamp", .text (stamp (-1)))]) = false := by
  have before : Dated (-1) := by decide
  have after : Dated leapDay := by decide
  obtain ⟨order, same, since⟩ := stampsChronological before after
  obtain ⟨-, -, back⟩ := stampsChronological after before
  refine ⟨before, after, order (by decide), fun equal => ?_, (since _ rfl).mpr (by decide), Bool.eq_false_iff.mpr fun kept => ?_⟩
  · exact absurd (same.mp equal) (by decide)
  · exact absurd ((back _ rfl).mp kept) (by decide)

end DebugSweep.Time
