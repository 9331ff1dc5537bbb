import DebugSweep.Finding
import DebugSweep.Text.Blank
import DebugSweep.Text.Slice

/-! Removal of findings from the lines of a text. -/
namespace DebugSweep.Clear
open Text

structure Cut where
  lines : List (List Char)
  cleared : Nat := 0
  stale : Nat := 0
  deriving DecidableEq, Repr

/-- Later lines first, and on a line later columns first. -/
def notBefore (a b : Finding) : Bool :=
  b.lineNumber < a.lineNumber || (b.lineNumber == a.lineNumber && b.column ≤ a.column)

def cutLine (line : List Char) (column : Int) (length : Nat) : List Char :=
  upTo column line ++ onward (column + length) line

/-- Cuts one finding out. A line that it leaves blank is dropped; a finding that no longer
stands at its place is stale. -/
def Cut.remove (cut : Cut) (f : Finding) : Cut :=
  let index := f.lineNumber - 1
  let content := f.content.toList
  match if index < 0 then none else cut.lines[index.toNat]? with
  | none => { cut with stale := cut.stale + 1 }
  | some line =>
      if standsAt content f.column line then
        let rest := cutLine line f.column content.length
        let lines :=
          if allBlank rest then cut.lines.eraseIdx index.toNat else cut.lines.set index.toNat rest
        { cut with lines, cleared := cut.cleared + 1 }
      else { cut with stale := cut.stale + 1 }

/-- Cuts findings out from the bottom up and from right to left, so that no cut moves the place
of a later one. -/
def fromLines (lines : List (List Char)) (findings : List Finding) : Cut :=
  (findings.mergeSort notBefore).foldl Cut.remove { lines }

end DebugSweep.Clear
