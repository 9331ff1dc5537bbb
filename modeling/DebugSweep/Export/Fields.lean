import DebugSweep.Finding
import DebugSweep.Json.Writer

/-! Columns of exported findings, and exports as JSON and as comma-separated values. -/
namespace DebugSweep.Export

def columns : List String := ["file", "line", "type", "text", "severity"]

def defaultColumns : List String := ["file", "line", "type", "text"]

def chosen : Option (List String) → List String
  | none => defaultColumns
  | some names => names.filter (fun name => columns.contains name)

def shownPath (f : Finding) : String :=
  if f.relativePath == "" then f.filePath else f.relativePath

def cell (f : Finding) (column : String) : Value :=
  if column == "file" then .text (shownPath f)
  else if column == "line" then .int f.lineNumber
  else if column == "type" then .text f.kind.token
  else if column == "severity" then .text f.severity.name
  else .text f.content

/-- A column asked for twice is one field. -/
def jsonRow (names : List String) (f : Finding) : Value :=
  .record (names.foldl (fun fields name => Value.setIn name (cell f name) fields) [])

def json (names : List String) (findings : List Finding) : String :=
  Json.write { Json.Style.page with ascii := false } (.list (findings.map (jsonRow names)))

/-- A carriage return by itself needs none, since only a line feed ends a record. -/
def needsQuotes (c : Char) : Bool := c == ',' || c == '"' || c == '\n'

def csvField (field : List Char) : List Char :=
  if field.any needsQuotes then
    '"' :: (field.flatMap (fun c => if c == '"' then ['"', '"'] else [c]) ++ ['"'])
  else field

/-- A record with one empty field has quotes, so that it differs from one without fields. -/
def csvRecord (fields : List (List Char)) : List Char :=
  if fields == [[]] then ['"', '"'] else List.intercalate [','] (fields.map csvField)

def cellText (f : Finding) (column : String) : List Char :=
  match cell f column with
  | .text s => s.toList
  | .int n => (toString n).toList
  | _ => []

def csvRecords (names : List String) (findings : List Finding) : List (List (List Char)) :=
  names.map String.toList :: findings.map (fun f => names.map (cellText f))

/-- Line feeds at the very end are left out. -/
def csv (names : List String) (findings : List Finding) : String :=
  let records := (csvRecords names findings).map (fun fields => csvRecord fields ++ ['\n'])
  String.ofList (records.flatten.reverse.dropWhile (· == '\n')).reverse

end DebugSweep.Export
