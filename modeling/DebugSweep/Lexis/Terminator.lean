import DebugSweep.Lexis.Brackets
import DebugSweep.Text.Slice

/-! Where a statement ends: behind the first semicolon in code that stands in no open bracket.
Closers without an opener are ignored. -/
namespace DebugSweep.Lexis

/-- The offset of the terminator, or the brackets that are open at the end of the line. -/
def findTerminator (depth : Brackets) : List (Nat × Char) → Except Brackets Nat
  | [] => .error depth
  | (offset, c) :: rest =>
      if c == ';' && depth.isTopLevel then .ok offset else findTerminator (depth.apply true c) rest

def statementEnd (line : List Char) (start : Nat) : Nat :=
  match findTerminator {} (codeOf (line.drop start) {}).chars with
  | .ok offset => start + offset + 1
  | .error _ => line.length

def endInLines (state : LineState) (depth : Brackets) (number begin : Int) :
    List (List Char) → Option (Int × Int)
  | [] => none
  | line :: rest =>
      let code := codeOf line state
      match findTerminator depth code.chars with
      | .ok offset => some (number, begin + offset + 1)
      | .error depth' => endInLines code.exit depth' (number + 1) 0 rest

/-- The terminator at or after a position in a document. Lines before the first one count from
the end of the document, and are followed by all of it; none exists before those. -/
def statementEndInLines? (lines : List (List Char)) (line character : Int) :
    Option (Option (Int × Int)) :=
  if line < -(lines.length : Int) then none
  else
    let tail := Text.onward line lines ++ (if line < 0 then lines else [])
    some (match tail with
      | [] => none
      | first :: rest => endInLines {} {} line character (Text.onward character first :: rest))

end DebugSweep.Lexis
