import DebugSweep.Text.Blank
import DebugSweep.Text.Digit

/-! Whole numbers as people write them: a sign, digits of any script, single underscores between
digits, and blanks around it all. -/
namespace DebugSweep.Whole
open Text

/-- Blanks around a number; the information separators are not among them. -/
def isMargin (c : Char) : Bool := isBlank c && !(0x1c ≤ c.toNat && c.toNat ≤ 0x1f)

def trim (text : List Char) : List Char :=
  ((text.dropWhile isMargin).reverse.dropWhile isMargin).reverse

def digitLimit : Nat := 4300

def digitValues? (done : List Nat) (digitDue : Bool) : List Char → Option (List Nat)
  | [] => if digitDue then none else some done.reverse
  | c :: rest =>
      match digitValue? c with
      | some value => digitValues? (value :: done) false rest
      | none => if c == '_' && !digitDue then digitValues? done true rest else none

def natural? (text : List Char) : Option Nat := do
  let values ← digitValues? [] true text
  if digitLimit < values.length then none
  else some (values.foldl (fun total value => 10 * total + value) 0)

def read? (text : List Char) : Option Int :=
  match trim text with
  | '-' :: rest => (natural? rest).map (fun n => -(n : Int))
  | '+' :: rest => (natural? rest).map Int.ofNat
  | rest => (natural? rest).map Int.ofNat

end DebugSweep.Whole
