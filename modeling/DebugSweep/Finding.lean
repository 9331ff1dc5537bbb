import DebugSweep.Lexis.Kind
import DebugSweep.Value

/-! Debug statements found in files. -/
namespace DebugSweep
open Lexis

structure Finding where
  id : String
  filePath : String
  relativePath : String
  lineNumber : Int
  column : Int
  content : String
  context : String
  kind : Kind
  severity : Severity
  deriving DecidableEq, Repr

namespace Finding

def idOf (filePath : String) (lineNumber column : Int) : String :=
  filePath ++ ":" ++ toString lineNumber ++ ":" ++ toString column

def toValue (f : Finding) : Value :=
  .record [("id", .text f.id), ("file_path", .text f.filePath),
    ("relative_path", .text f.relativePath), ("line_number", .int f.lineNumber),
    ("column", .int f.column), ("content", .text f.content), ("context", .text f.context),
    ("type", .text f.kind.token), ("severity", .text f.severity.name)]

def notAfter (a b : Finding) : Bool :=
  a.filePath < b.filePath || (a.filePath == b.filePath &&
    (a.lineNumber < b.lineNumber || (a.lineNumber == b.lineNumber && a.column ≤ b.column)))

def sort (findings : List Finding) : List Finding := findings.mergeSort notAfter

end Finding
end DebugSweep
