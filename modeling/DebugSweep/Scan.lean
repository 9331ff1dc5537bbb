import DebugSweep.Finding
import DebugSweep.Lexis.Segment
import DebugSweep.Lexis.Terminator
import DebugSweep.Text.Lines

/-! Findings of a line and of a whole text. A statement is recognised in the code of its line and
then located in the line itself. -/
namespace DebugSweep.Scan
open Lexis Text

structure Origin where
  filePath : String
  relativePath : String
  deriving DecidableEq, Repr

/-- The first place of the token from the anchor on, else the first one in the line. -/
def locateToken? (line token : List Char) (anchor : Nat) : Option Nat :=
  match findToken? token anchor (line.drop anchor) with
  | some start => some start
  | none => findToken? token 0 line

def locate? (line : List Char) (code : CodeLine) (merged : Merged) : Option (Nat × Nat) := do
  let start ← locateToken? line merged.kind.token.toList (code.rawOffset merged.segment.leading)
  let stop := statementEnd line start
  match merged.halt with
  | none => return (start, stop)
  | some halt =>
      let anchor := max stop (code.rawOffset halt.leading)
      match (findHaltFrom? line anchor).or (findHaltFrom? line stop) with
      | none => return (start, stop)
      | some place => return (start, statementEnd line place)

def finding? (origin : Origin) (number : Int) (line : List Char) (code : CodeLine)
    (merged : Merged) : Option Finding := do
  let (start, stop) ← locate? line code merged
  let content := strip ((line.take stop).drop start)
  if content.isEmpty then none
  else return {
    id := Finding.idOf origin.filePath number start
    filePath := origin.filePath
    relativePath := origin.relativePath
    lineNumber := number
    column := start
    content := String.ofList content
    context := String.ofList line
    kind := merged.kind
    severity := severityOf content }

def line (origin : Origin) (number : Int) (state : LineState) (raw : List Char) :
    List Finding × LineState :=
  let line := dropEnd '\r' raw
  let code := codeOf line state
  if mentionsToken code.text then
    ((merge (segments code.text)).filterMap (finding? origin number line code), code.exit)
  else ([], code.exit)

/-- The findings of numbered lines, the last ones first in `done`. -/
def linesFrom (origin : Origin) (number : Int) (state : LineState) (done : List Finding) :
    List (List Char) → List Finding
  | [] => done.reverse
  | raw :: rest =>
      let (found, after) := line origin number state raw
      linesFrom origin (number + 1) after (found.reverse ++ done) rest

def text (origin : Origin) (source : List Char) : List Finding :=
  linesFrom origin 1 {} [] (lines source)

end DebugSweep.Scan
