import DebugSweep.Files.Load
import DebugSweep.Json.Writer

/-! Lists of texts kept in files as JSON. A file is written beside its place and then moved
there, so that it is never seen half written. -/
namespace DebugSweep.Store

/-- The texts in a file; without one there are none. `what` names them if they are ill-formed. -/
def load (d : Disk) (p : AbsPath) (what : String) : Except Fault (List String) := do
  match d.get? p with
  | none => return []
  | some _ =>
      match (← Files.readJson d p).texts? with
      | some texts => return texts
      | none => throw (.invalid (.storeShape p.text what))

def content (texts : List String) : ByteArray :=
  (Json.write Json.Style.page (Value.ofTexts texts) ++ "\n").toUTF8

def saveSteps (p : AbsPath) (texts : List String) : List (Disk → Except OsFailure Disk) :=
  [fun d => d.makeDirs p.parent, fun d => d.write p.draft (content texts),
   fun d => d.replace p.draft p]

/-- Does steps until one fails; what was done before it stays done. -/
def perform (d : Disk) : List (Disk → Except OsFailure Disk) → Except Fault Unit × Disk
  | [] => (.ok (), d)
  | step :: rest =>
      match step d with
      | .ok d' => perform d' rest
      | .error failure => (.error (.os failure), d)

def save (d : Disk) (p : AbsPath) (texts : List String) : Except Fault Unit × Disk :=
  perform d (saveSteps p texts)

end DebugSweep.Store
