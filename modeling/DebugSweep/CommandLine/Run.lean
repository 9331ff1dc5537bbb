import DebugSweep.CommandLine.Invocation
import DebugSweep.Guard
import DebugSweep.Server.Requests
import DebugSweep.Watch

/-! Runs of command lines: what is written, how a run ends, and the files it leaves. -/
namespace DebugSweep.CommandLine

structure Surroundings where
  now : String
  git : Guard.Git := fun _ => {}
  input : String := ""
  /-- What happens to the files, one change after the other, while they are watched. -/
  changes : List (Disk → Disk) := []

structure Outcome where
  exit : Nat
  stdout : String := ""
  stderr : String := ""
  calls : List (List String) := []
  deriving DecidableEq, Repr

def complaint (fault : Fault) : Outcome :=
  { exit := 2, stderr := "debug-manager: " ++ fault.message ++ "\n" }

def ofRefusal : Refusal → Outcome
  | .help => { exit := 0 }
  | .misuse => { exit := 2 }

def Invocation.overrides (i : Invocation) : Settings.Overrides :=
  { dataDir := i.dataDir
    maxFileBytes := (i.maxFileBytes.map Value.int).getD .null
    batchSize := (i.batchSize.map Value.int).getD .null }

def orComplain (result : Except Fault α) : Except Fault (Except Outcome α) :=
  match result with
  | .ok a => .ok (.ok a)
  | .error fault => if fault.isInvalid then .ok (.error (complaint fault)) else .error fault

def Invocation.settings (i : Invocation) (d : Disk) : Except Fault Settings := do
  Files.settings d (← Path.resolve d.here i.root) i.overrides

def withStored (d : Disk) (settings : Settings) : Except Fault Settings := do
  let stored ← Excludes.load d (settings.dataDir.child Excludes.fileName)
  return settings.withExcludes stored.patterns

def pageText (value : Value) : String :=
  Json.write { Json.Style.page with sorted := true } value ++ "\n"

def columnsOf (fields : Option String) : Option (List String) :=
  match fields with
  | none | some "" => none
  | some text => some ((text.toList.splitOn ',').map (fun name => String.ofList (Text.strip name)))

def scanText (settings : Settings) (d : Disk) (now : String) (paths : List String)
    (format : String) (fields : Option String) : Except Fault String := do
  let engine : Engine := { settings }
  let source : Source := { disk := d }
  let (result, _, _) :=
    if paths.isEmpty then engine.scanWorkspace source now else engine.scanFiles source now paths
  let result ← result
  if format == "json" then return pageText result.toValue
  else
    return (← Export.render d.here settings.rootTexts format (columnsOf fields) result.findings)
      ++ "\n"

def checkStaged (settings : Settings) (d : Disk) (s : Surroundings) (mode : Option String)
    (failOnWarn : Bool) : Except Fault Outcome :=
  let checked := Guard.check { settings } { disk := d } s.now settings.workspaceRoot s.git mode
    failOnWarn
  match checked.verdict with
  | .ok verdict =>
      .ok { exit := if verdict.blocked then 1 else 0, stdout := pageText verdict.toValue
            calls := checked.calls }
  | .error (.git text) => .ok { complaint (.git text) with calls := checked.calls }
  | .error fault => .error fault

def scanLine (now : String) (r : ScanResult) : String :=
  Json.write Json.Style.line (.record [("timestamp", .text now),
    ("scanned_files", .ofNat r.scannedFiles), ("total_statements", .ofNat r.total),
    ("errors", .ofNat r.errors.length)]) ++ "\n"

def watchStart (settings : Settings) (d : Disk) (now : String) :
    Except Fault (String × Watch.State) := do
  let engine : Engine := { settings }
  let (result, engine, source) := engine.scanWorkspace { disk := d } now
  let first ← result
  let (seen, state) := ({ engine, source } : Watch.State).poll
  let _ ← seen
  return (scanLine now first, state)

def watchRound (now : String) (d : Disk) (s : Watch.State) : Except Fault (String × Watch.State) := do
  let (seen, s₁) := { s with source := { s.source with disk := d }, completed := [] }.poll
  let _ ← seen
  let (waited, s₂) := s₁.wait now
  match waited with
  | .result (.error fault) => throw fault
  | _ => return (String.join (s₂.completed.reverse.map (scanLine now)), s₂)

def watchChanges (now : String) (done : String) (s : Watch.State) :
    List (Disk → Disk) → Except Fault String × Disk
  | [] => (.ok done, s.source.disk)
  | change :: rest =>
      let d := change s.source.disk
      match watchRound now d s with
      | .error fault => (.error fault, d)
      | .ok (lines, s') => watchChanges now (done ++ lines) s' rest

def watchRun (settings : Settings) (d : Disk) (s : Surroundings) : Except Fault Outcome × Disk :=
  match watchStart settings d s.now with
  | .error fault => (.error fault, d)
  | .ok (first, state) =>
      let (written, d') := watchChanges s.now first state s.changes
      (written.map (fun stdout => { exit := 0, stdout }), d')

def serveRun (settings : Settings) (d : Disk) (s : Surroundings) : Except Fault Outcome × Disk :=
  match Server.create settings d with
  | .error fault => (.error fault, d)
  | .ok (server, d') =>
      let site : Site := { server, source := { disk := d' } }
      let (responses, ended, site') := site.serve s.now s.input.toList
      let stdout := String.join (responses.map (fun r => r.text ++ "\n"))
      (ended.map (fun _ => { exit := 0, stdout }), site'.disk)

def runCommand (settings : Settings) (d : Disk) (s : Surroundings) :
    Command → Except Fault Outcome × Disk
  | .serve => serveRun settings d s
  | .watch => watchRun settings d s
  | .scan paths format fields =>
      ((scanText settings d s.now paths format fields).map (fun stdout => { exit := 0, stdout }), d)
  | .checkStaged mode failOnWarn => (checkStaged settings d s mode failOnWarn, d)

def Invocation.prepare (i : Invocation) (d : Disk) : Except Fault (Except Outcome Settings) := do
  if let some text := i.dataDir then
    let _ ← Path.resolve d.here text
  match ← orComplain (i.settings d) with
  | .error outcome => return .error outcome
  | .ok settings =>
      if i.command == .serve then return .ok settings else orComplain (withStored d settings)

def run (d : Disk) (s : Surroundings) (argv : List String) : Except Fault Outcome × Disk :=
  match Invocation.read argv with
  | .error refusal => (.ok (ofRefusal refusal), d)
  | .ok i =>
      match i.prepare d with
      | .error fault => (.error fault, d)
      | .ok (.error outcome) => (.ok outcome, d)
      | .ok (.ok settings) => runCommand settings d s i.command

end DebugSweep.CommandLine
