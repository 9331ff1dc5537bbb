/-! Bytes as text in UTF-8. Reading is either strict or puts the replacement character in the
place of every longest run of bytes that starts no character. -/
namespace DebugSweep.Text

def decode? (bytes : ByteArray) : Option String := String.fromUTF8? bytes

/-- A character whose first bytes were read: how many are owed, the range of the next one, and
the value so far. -/
structure Partial where
  owed : Nat
  low : Nat
  high : Nat
  value : Nat
  deriving DecidableEq, Repr

structure Repair where
  done : List Char := []
  pending : Option Partial := none
  deriving DecidableEq, Repr

def replacement : Char := Char.ofNat 0xfffd

def Repair.lead (r : Repair) (byte : Nat) : Repair :=
  let start := fun owed low high value => { r with pending := some ⟨owed, low, high, value⟩ }
  if byte < 0x80 then { r with done := Char.ofNat byte :: r.done, pending := none }
  else if 0xc2 ≤ byte && byte ≤ 0xdf then start 1 0x80 0xbf (byte - 0xc0)
  else if byte == 0xe0 then start 2 0xa0 0xbf 0
  else if byte == 0xed then start 2 0x80 0x9f 0xd
  else if 0xe1 ≤ byte && byte ≤ 0xef then start 2 0x80 0xbf (byte - 0xe0)
  else if byte == 0xf0 then start 3 0x90 0xbf 0
  else if 0xf1 ≤ byte && byte ≤ 0xf3 then start 3 0x80 0xbf (byte - 0xf0)
  else if byte == 0xf4 then start 3 0x80 0x8f 4
  else { r with done := replacement :: r.done, pending := none }

def Repair.step (r : Repair) (byte : UInt8) : Repair :=
  let b := byte.toNat
  match r.pending with
  | none => r.lead b
  | some p =>
      if p.low ≤ b && b ≤ p.high then
        let value := p.value * 64 + (b - 0x80)
        if p.owed ≤ 1 then { done := Char.ofNat value :: r.done, pending := none }
        else { r with pending := some ⟨p.owed - 1, 0x80, 0xbf, value⟩ }
      else Repair.lead { done := replacement :: r.done, pending := none } b

def Repair.finish (r : Repair) : List Char :=
  (if r.pending.isSome then replacement :: r.done else r.done).reverse

def repair (bytes : ByteArray) : List Char := (bytes.foldl Repair.step {}).finish

def decodeLossy (bytes : ByteArray) : String :=
  match decode? bytes with
  | some text => text
  | none => String.ofList (repair bytes)

end DebugSweep.Text
