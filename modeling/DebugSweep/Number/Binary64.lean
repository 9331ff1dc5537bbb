/-! Double-precision numbers as their 64 bits: rounding of exact quotients and decimals to the
nearest one, ties to even. -/
namespace DebugSweep.Binary64

def infinity : UInt64 := 0x7ff0000000000000

def quietNaN : UInt64 := 0x7ff8000000000000

def fractionSize : Nat := 4503599627370496

def negate (bits : UInt64) : UInt64 := bits ^^^ 0x8000000000000000

def magnitude (bits : UInt64) : UInt64 := bits &&& 0x7fffffffffffffff

def isNegative (bits : UInt64) : Bool := bits != magnitude bits

def isNaN (bits : UInt64) : Bool := infinity < magnitude bits

/-- Above zero. What is not a number counts as above zero too, as it is not at or below it. -/
def isPositive (bits : UInt64) : Bool :=
  isNaN bits || (!isNegative bits && magnitude bits != 0)

def roundQuotient (num den : Nat) : Nat :=
  let floor := num / den
  let twice := 2 * (num % den)
  if twice < den then floor
  else if den < twice then floor + 1
  else floor + floor % 2

/-- `num / den` with both sides scaled so that the quotient counts units of `2 ^ unit`. -/
def inUnits (num den : Nat) (unit : Int) : Nat × Nat :=
  if unit < 0 then (num * Nat.pow 2 unit.natAbs, den) else (num, den * Nat.pow 2 unit.natAbs)

def binade (num den : Nat) : Int :=
  let guess : Int := (num.log2 : Int) - den.log2
  let (n, d) := inUnits num den guess
  if n < d then guess - 1 else guess

def ofRatio (num den : Nat) : UInt64 :=
  if num == 0 then 0 else
    let unit := max (binade num den - 52) (-1074)
    let (n, d) := inUnits num den unit
    let bits := (unit + 1074).toNat * fractionSize + roundQuotient n d
    if bits < infinity.toNat then bits.toUInt64 else infinity

def decimalLength (n : Nat) : Nat := (Nat.toDigits 10 n).length

/-- The double nearest to `digits * 10 ^ exponent`. Decimals far outside the range are settled
by their size, so the powers that are formed stay small. -/
def ofDecimal (digits : Nat) (exponent : Int) : UInt64 :=
  if digits == 0 then 0 else
    let size := exponent + decimalLength digits
    if 320 < size then infinity
    else if size < -340 then 0
    else if exponent < 0 then ofRatio digits (Nat.pow 10 exponent.natAbs)
    else ofRatio (digits * Nat.pow 10 exponent.natAbs) 1

def ofInt? (n : Int) : Option UInt64 :=
  let bits := ofRatio n.natAbs 1
  if bits == infinity then none else some (if n < 0 then negate bits else bits)

end DebugSweep.Binary64
