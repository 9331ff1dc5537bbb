import DebugSweep.Files.Load
import DebugSweep.Json.Writer
import DebugSweep.Journal.Metadata
import DebugSweep.Text.Blank
import DebugSweep.Text.Lines

/-! The journal of requests: one line of JSON for each, the newest last. -/
namespace DebugSweep.Journal
open Text

def fileName : String := "audit.jsonl"

structure Event where
  timestamp : String
  requestId : String
  tool : String
  ok : Bool
  blocked : Bool
  errorCode : Option String
  metadata : List (String × Value)
  durationMs : Int := 0

def Event.toValue (e : Event) : Value :=
  .record [("timestamp", .text e.timestamp), ("request_id", .text e.requestId),
    ("tool", .text e.tool), ("ok", .bool e.ok), ("blocked", .bool e.blocked),
    ("error_code", Value.ofText? e.errorCode), ("metadata", .record e.metadata),
    ("duration_ms", .int e.durationMs)]

def prepare (d : Disk) (p : AbsPath) : Except Fault Disk := (d.makeDirs p.parent).mapError .os

def lineOfEvent (e : Event) : String := Json.write Json.Style.line e.toValue ++ "\n"

def append (d : Disk) (p : AbsPath) (e : Event) : Except Fault Disk :=
  (d.append p (lineOfEvent e).toUTF8).mapError .os

/-- The records of a journal. Blank lines, lines that are no JSON and values other than records
are passed over. -/
def records (done : List Value) : List (List Char) → Except Fault (List Value)
  | [] => .ok done.reverse
  | line :: rest =>
      let stripped := strip line
      if stripped.isEmpty then records done rest
      else
        match Json.read (String.ofList stripped) with
        | .ok (.record fields) => records (.record fields :: done) rest
        | .ok _ => records done rest
        | .error .malformed => records done rest
        | .error (.longNumber digits) => .error (.invalid (.longNumber digits))

/-- Stamps compare as texts. -/
def stampedSince (since : String) (record : Value) : Bool :=
  match record.field? "timestamp" with
  | some (.text stamp) => decide (since ≤ stamp)
  | _ => false

def ofTool (tool : String) (record : Value) : Bool :=
  match record.field? "tool" with
  | some (.text name) => name == tool
  | _ => false

def wanted (since tool : Option String) (record : Value) : Bool :=
  since.all (stampedSince · record) && tool.all (ofTool · record)

def lastOnes (limit : Nat) (items : List α) : List α := items.drop (items.length - limit)

/-- The newest records that are wanted, the oldest first. -/
def read (d : Disk) (p : AbsPath) (since : Option String) (limit : Int) (tool : Option String) :
    Except Fault (List Value) := do
  if limit < 1 || (d.get? p).isNone then return []
  let text ← Files.readText d p
  let all ← records [] (lines (normalizeEndings text.toList))
  return lastOnes limit.toNat (all.filter (wanted since tool))

end DebugSweep.Journal
