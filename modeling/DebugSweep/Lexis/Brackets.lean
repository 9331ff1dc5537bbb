import DebugSweep.Lexis.Code

/-! Counts of open brackets over code characters. -/
namespace DebugSweep.Lexis

structure Brackets where
  paren : Int := 0
  bracket : Int := 0
  brace : Int := 0
  deriving DecidableEq, Repr

/-- One closer less, but with `clamp` never below zero. -/
def closeOne (clamp : Bool) (count : Int) : Int :=
  if clamp && count ≤ 0 then count else count - 1

def Brackets.apply (clamp : Bool) (b : Brackets) (c : Char) : Brackets :=
  match c with
  | '(' => { b with paren := b.paren + 1 }
  | '[' => { b with bracket := b.bracket + 1 }
  | '\x7b' => { b with brace := b.brace + 1 }
  | ')' => { b with paren := closeOne clamp b.paren }
  | ']' => { b with bracket := closeOne clamp b.bracket }
  | '\x7d' => { b with brace := closeOne clamp b.brace }
  | _ => b

def Brackets.feed (clamp : Bool) (b : Brackets) (line : CodeLine) : Brackets :=
  line.text.foldl (Brackets.apply clamp) b

def Brackets.isTopLevel (b : Brackets) : Bool := b.paren ≤ 0 && b.bracket ≤ 0 && b.brace ≤ 0

end DebugSweep.Lexis
