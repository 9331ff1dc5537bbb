import DebugSweep.Number.Binary64

/-! Decimal text of doubles: the fewest digits that read back, the nearest of those, written
positionally from `0.0001` up to below `10 ^ 16` and with an exponent elsewhere. -/
namespace DebugSweep.Binary64

/-- A positive finite double is `mantissa * 2 ^ exponent`. -/
structure Parts where
  mantissa : Nat
  exponent : Int
  deriving DecidableEq, Repr

def parts (bits : UInt64) : Parts :=
  let raw := (magnitude bits).toNat
  let fraction : Nat := raw % fractionSize
  let field : Nat := raw / fractionSize
  if field == 0 then ⟨fraction, -1074⟩ else ⟨fraction + fractionSize, (field : Int) - 1075⟩

/-- The numbers that round to a double, in quarters of its last place. -/
structure Span where
  low : Nat
  value : Nat
  high : Nat
  closed : Bool
  deriving DecidableEq, Repr

def Parts.span (p : Parts) : Span :=
  let value := 4 * p.mantissa
  let below := if p.mantissa == fractionSize && p.exponent != -1074 then 1 else 2
  ⟨value - below, value, value + 2, p.mantissa % 2 == 0⟩

def powerOf (base : Nat) (exponent : Int) : Nat × Nat :=
  if exponent < 0 then (1, Nat.pow base exponent.natAbs) else (Nat.pow base exponent.natAbs, 1)

def decade (num den : Nat) : Int :=
  if den ≤ num then (decimalLength (num / den) : Int) - 1
  else
    let places := decimalLength den - decimalLength num
    if den ≤ num * Nat.pow 10 places then -(places : Int) else -(places + 1 : Int)

/-- The better of the two neighbours of a double on the grid of multiples of `10 ^ place`, if
one of them rounds to it. -/
def onGrid? (p : Parts) (place : Int) : Option Nat :=
  let s := p.span
  let (twoNum, twoDen) := powerOf 2 (p.exponent - 2)
  let (tenNum, tenDen) := powerOf 10 place
  let scale := twoNum * tenDen
  let unit := tenNum * twoDen
  let floor := s.value * scale / unit
  let fits := fun d =>
    let x := d * unit
    if s.closed then s.low * scale ≤ x && x ≤ s.high * scale
    else s.low * scale < x && x < s.high * scale
  let below := s.value * scale - floor * unit
  let above := (floor + 1) * unit - s.value * scale
  let nearer := if below < above || (below == above && floor % 2 == 0) then floor else floor + 1
  if fits floor && fits (floor + 1) then some nearer
  else if fits floor then some floor
  else if fits (floor + 1) then some (floor + 1)
  else none

/-- Tries coarse grids first. Seventeen digits always suffice. -/
def shortestFrom (p : Parts) (place : Int) : Nat → Nat × Int
  | 0 => (0, place)
  | tries + 1 =>
      match onGrid? p place with
      | some digits => (digits, place)
      | none => shortestFrom p (place - 1) tries

def shortest (p : Parts) : Nat × Int :=
  let (num, den) := powerOf 2 p.exponent
  shortestFrom p (decade (p.mantissa * num) den) 18

def trimZeros : Nat → Nat × Int → Nat × Int
  | 0, d => d
  | fuel + 1, (digits, place) =>
      if digits != 0 && digits % 10 == 0 then trimZeros fuel (digits / 10, place + 1)
      else (digits, place)

def zeros (n : Nat) : List Char := List.replicate n '0'

def exponentText (exponent : Int) : List Char :=
  let digits := Nat.toDigits 10 exponent.natAbs
  'e' :: (if exponent < 0 then '-' else '+') :: (zeros (2 - digits.length) ++ digits)

def layOut (digits : List Char) (exponent : Int) : List Char :=
  if exponent < -4 || 16 ≤ exponent then
    match digits with
    | [d] => d :: exponentText exponent
    | d :: rest => d :: '.' :: (rest ++ exponentText exponent)
    | [] => []
  else if exponent < 0 then '0' :: '.' :: (zeros (exponent.natAbs - 1) ++ digits)
  else
    let whole := exponent.toNat + 1
    if digits.length ≤ whole then digits ++ zeros (whole - digits.length) ++ ['.', '0']
    else digits.take whole ++ '.' :: digits.drop whole

def magnitudeText (bits : UInt64) : List Char :=
  if magnitude bits == 0 then ['0', '.', '0'] else
    let (digits, place) := trimZeros 20 (shortest (parts bits))
    let text := Nat.toDigits 10 digits
    layOut text (place + text.length - 1)

def text (bits : UInt64) : List Char :=
  if isNegative bits then '-' :: magnitudeText bits else magnitudeText bits

end DebugSweep.Binary64
