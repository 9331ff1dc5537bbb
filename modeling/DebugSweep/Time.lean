/-! Points in time as text. An instant counts microseconds from the start of 1970; a stamp shows
it in universal time, cut to milliseconds. -/
namespace DebugSweep.Time

structure Date where
  year : Nat
  month : Nat
  day : Nat
  deriving DecidableEq, Repr

/-- Days before the first of January of a year, counted from the first of January of year 1. -/
def daysBeforeYear (year : Nat) : Nat :=
  let y := year - 1
  365 * y + y / 4 - y / 100 + y / 400

def isLeap (year : Nat) : Bool := year % 4 == 0 && (year % 100 != 0 || year % 400 == 0)

/-- The year that holds a day, found by whole cycles of 400, 100, 4 and 1 years. -/
def yearOf (day : Nat) : Nat :=
  let inCycle := day % 146097
  let centuries := min (inCycle / 36524) 3
  let inCentury := inCycle - 36524 * centuries
  let quads := inCentury / 1461
  let inQuad := inCentury - 1461 * quads
  400 * (day / 146097) + 100 * centuries + 4 * quads + min (inQuad / 365) 3 + 1

def monthLengths (leap : Bool) : List Nat :=
  [31, if leap then 29 else 28, 31, 30, 31, 30, 31, 31, 30, 31, 30, 31]

def inMonths (month day : Nat) : List Nat → Nat × Nat
  | [] => (month, day + 1)
  | length :: rest =>
      if day < length then (month, day + 1) else inMonths (month + 1) (day - length) rest

def dateOf (day : Nat) : Date :=
  let year := yearOf day
  let (month, dayOfMonth) := inMonths 1 (day - daysBeforeYear year) (monthLengths (isLeap year))
  ⟨year, month, dayOfMonth⟩

def padded (width n : Nat) : List Char :=
  let digits := Nat.toDigits 10 n
  List.replicate (width - digits.length) '0' ++ digits

def epochDay : Nat := 719162

def stampChars (micros : Int) : List Char :=
  let millis := micros.fdiv 1000 + (epochDay * 86400000 : Nat)
  let inDay := (millis % 86400000).toNat
  let date := dateOf (millis / 86400000).toNat
  padded 4 date.year ++ '-' :: padded 2 date.month ++ '-' :: padded 2 date.day ++
    'T' :: padded 2 (inDay / 3600000) ++ ':' :: padded 2 (inDay / 60000 % 60) ++
    ':' :: padded 2 (inDay / 1000 % 60) ++ '.' :: padded 3 (inDay % 1000) ++ ['Z']

/-- The stamp of an instant, such as `2024-02-28T23:59:58.250Z`. -/
def stamp (micros : Int) : String := String.ofList (stampChars micros)

end DebugSweep.Time
