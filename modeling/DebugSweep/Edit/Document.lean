import DebugSweep.Fault
import DebugSweep.Text.Blank
import DebugSweep.Text.Lines
import DebugSweep.Value

/-! Documents as lists of lines, and selections in them. -/
namespace DebugSweep.Edit
open Text

/-- A range from a line and character to a later or equal one, counted from zero; the end is
exclusive on its line. -/
structure Selection where
  startLine : Nat
  startCharacter : Nat
  endLine : Nat
  endCharacter : Nat
  deriving DecidableEq, Repr

namespace Selection

def reversed (s : Selection) : Bool :=
  s.endLine < s.startLine || (s.endLine == s.startLine && s.endCharacter < s.startCharacter)

def isEmpty (s : Selection) : Bool :=
  s.startLine == s.endLine && s.startCharacter == s.endCharacter

def fieldOf (name : String) (value : Option Value) : Except Fault Nat :=
  match value with
  | some (.int n) => if n < 0 then .error (.invalid (.selectionField name)) else .ok n.toNat
  | _ => .error (.invalid (.selectionField name))

def make (startLine startCharacter endLine endCharacter : Option Value) :
    Except Fault Selection := do
  let s : Selection := {
    startLine := ← fieldOf "start_line" startLine
    startCharacter := ← fieldOf "start_character" startCharacter
    endLine := ← fieldOf "end_line" endLine
    endCharacter := ← fieldOf "end_character" endCharacter }
  if s.reversed then throw (.invalid .selectionOrder) else return s

def ofValue (payload : Value) : Except Fault Selection :=
  match payload with
  | .record fields =>
      let start := Value.fieldIn? "start" fields
      let stop := (Value.fieldIn? "end" fields).or start
      match start, stop with
      | some (.record a), some (.record b) =>
          make (Value.fieldIn? "line" a) (Value.fieldIn? "character" a)
            (Value.fieldIn? "line" b) (Value.fieldIn? "character" b)
      | _, _ => .error (.invalid .selectionEnds)
  | _ => .error (.invalid .selectionShape)

end Selection

structure Document where
  lines : List (List Char)
  deriving DecidableEq, Repr

namespace Document

/-- Carriage returns at the end of a line are no part of it. -/
def ofText (text : List Char) : Document := ⟨(Text.lines text).map (dropEnd '\r')⟩

def text (d : Document) : List Char := unlines d.lines

def count (d : Document) : Nat := d.lines.length

def line (d : Document) (index : Int) : Except Fault (List Char) :=
  if index < 0 then .error (.lineOutside index)
  else
    match d.lines[index.toNat]? with
    | some line => .ok line
    | none => .error (.lineOutside index)

/-- The selected text. Places past the end of a line stand at its end. -/
def textIn (d : Document) (s : Selection) : Except Fault (List Char) :=
  if d.count ≤ s.endLine then .error (.invalid (.selectionPastEnd s.endLine d.count))
  else
    let first := (d.lines[s.startLine]?).getD []
    if s.startLine == s.endLine then
      .ok ((first.take s.endCharacter).drop s.startCharacter)
    else
      let middle := (d.lines.take s.endLine).drop (s.startLine + 1)
      let last := (d.lines[s.endLine]?).getD []
      .ok (unlines (first.drop s.startCharacter :: middle ++ [last.take s.endCharacter]))

def offsetOf (d : Document) (line : Nat) (column : Int) : Nat :=
  (d.lines.take line).foldl (fun total l => total + l.length + 1) 0 +
    min column.toNat ((d.lines[line]?).getD []).length

/-- The document with a text put in. The line behind the last one takes the text as new lines. -/
def insert (d : Document) (line column : Int) (added : List Char) : Except Fault Document :=
  if line < 0 || (d.count : Int) < line then .error (.lineOutside line)
  else
    let body := d.text
    if line == d.count then
      .ok (ofText (if body.isEmpty then added else body ++ '\n' :: added))
    else
      let offset := d.offsetOf line.toNat column
      .ok (ofText (body.take offset ++ added ++ body.drop offset))

end Document
end DebugSweep.Edit
