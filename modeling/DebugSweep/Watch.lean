import DebugSweep.Engine.Basic

/-! Re-scans on change. A trigger schedules one delayed scan and further triggers are absorbed by
it; a poller compares sizes and times of the files and triggers when they differ.

Time is counted in turns: in a turn every live task takes one step. A scan's batch takes three
turns, in which its files are scanned, reported as done, and taken in. -/
namespace DebugSweep.Watch

structure Job where
  total : Nat
  batch : List AbsPath
  rest : List AbsPath
  tally : Engine.Tally
  deriving DecidableEq, Repr

inductive Stage where
  | created
  | delayed
  | expired
  | batch (job : Job)
  | scanned (job : Job) (outcomes : List Outcome)
  | reported (job : Job) (outcomes : List Outcome)
  | finished (result : Except Fault ScanResult)
  | cancelled

structure Task where
  stage : Stage := .created
  cancelling : Bool := false

def Task.isDone (t : Task) : Bool :=
  match t.stage with
  | .finished _ | .cancelled => true
  | _ => false

structure State where
  engine : Engine
  source : Source
  /-- The delay has no length, so that it is over as it begins. -/
  prompt : Bool := true
  pending : Bool := false
  /-- Tasks that are not done, and the last one even if it is. -/
  tasks : List Task := []
  /-- Scans that tasks have begun, and those that came to their end. -/
  scansBegun : Nat := 0
  scanCount : Nat := 0
  /-- Results handed to whoever listens, the last one first. -/
  completed : List ScanResult := []
  snapshot : Option (List (String × Nat × Int)) := none

namespace State

/-- Asks for a scan. Nothing happens while one runs or is already waited for. -/
def trigger (s : State) : Bool × State :=
  if s.engine.scanning || s.pending then (false, s)
  else (true, { s with pending := true, tasks := s.tasks.filter (!·.isDone) ++ [{}] })

def markCancelled (t : Task) : Task := if t.isDone then t else { t with cancelling := true }

def cancel (s : State) : State :=
  match s.tasks.getLast? with
  | some t => { s with pending := false, tasks := s.tasks.dropLast ++ [markCancelled t] }
  | none => { s with pending := false }

def proceed (s : State) (job : Job) : Stage × State :=
  match job.rest with
  | [] =>
      let result := job.tally.result job.total
      (.finished (.ok result),
        { s with
          engine := s.engine.settle (.ok result)
          scanCount := s.scanCount + 1
          completed := result :: s.completed })
  | _ :: _ =>
      let size := s.engine.settings.limits.batchSize
      (.batch { job with batch := job.rest.take size, rest := job.rest.drop size }, s)

def fail (s : State) (fault : Fault) : Stage × State :=
  (.finished (.error fault), { s with engine := s.engine.settle (.error fault) })

def beginScan (now : String) (s : State) : Stage × State :=
  let s := { s with scansBegun := s.scansBegun + 1 }
  if s.engine.scanning then
    (.finished (.ok .empty),
      { s with scanCount := s.scanCount + 1, completed := .empty :: s.completed })
  else
    let s := { s with engine := { s.engine with scanning := true } }
    match Walk.collect s.engine.selector s.source with
    | .error fault => s.fail fault
    | .ok w =>
        s.proceed {
          total := w.found.length
          batch := []
          rest := w.found
          tally := { errors := (Engine.walkErrors now w).reverse } }

def launch (now : String) (s : State) : Stage × State := { s with pending := false }.beginScan now

/-- One step of a task. A cancelled one still ends its batch before it stops. -/
def stepTask (now : String) (s : State) (t : Task) : Stage × State :=
  match t.stage, t.cancelling with
  | .created, false => (if s.prompt then .expired else .delayed, s)
  | .expired, false => s.launch now
  | .created, true | .delayed, true | .expired, true => (.cancelled, s)
  | .batch job, false =>
      let (outcomes, engine, source) := s.engine.scanBatch s.source [] job.batch
      (.scanned job outcomes, { s with engine, source })
  | .batch job, true => (.scanned job [], s)
  | .scanned job outcomes, _ => (.reported job outcomes, s)
  | .reported job outcomes, false =>
      match job.tally.add now (job.batch.zip outcomes) with
      | .error fault => s.fail fault
      | .ok tally => s.proceed { job with tally }
  | .reported _ _, true => (.cancelled, { s with engine := { s.engine with scanning := false } })
  | stage, _ => (stage, s)

def stepTasks (now : String) (s : State) (done : List Task) : List Task → State
  | [] => { s with tasks := done.reverse }
  | t :: rest =>
      let (stage, s') := s.stepTask now t
      s'.stepTasks now ({ t with stage } :: done) rest

def turn (now : String) (s : State) : State := s.stepTasks now [] s.tasks

def expire (s : State) (index : Nat) : State :=
  match s.tasks[index]? with
  | some ⟨.delayed, false⟩ => { s with tasks := s.tasks.set index ⟨.expired, false⟩ }
  | _ => s

def elapse (s : State) : State := (List.range s.tasks.length).foldl expire s

def isQuiet (s : State) : Bool := (s.tasks.getLast?).all Task.isDone

def turnsUntilQuiet (now : String) : Nat → State → State
  | 0, s => s
  | fuel + 1, s => if s.isQuiet then s else (s.elapse.turn now).turnsUntilQuiet now fuel

/-- Each batch takes three turns; before the first one there are two. -/
def turnBound (s : State) : Nat :=
  3 * (s.engine.settings.scan.roots.length * s.source.disk.nodes.length + 1) + 3

inductive Waited where
  | nothing
  | cancelled
  | result (r : Except Fault ScanResult)

def wait (now : String) (s : State) : Waited × State :=
  let s' := s.turnsUntilQuiet now s.turnBound
  match s'.tasks.getLast? with
  | none => (.nothing, s')
  | some t =>
      match t.stage with
      | .finished r => (.result r, s')
      | _ => (.cancelled, s')

/-- Sizes and times of all files that scans look at, by path. Directories are entered whether
or not a rule excludes them. -/
def look (s : State) : Except Fault (List (String × Nat × Int)) := do
  let w ← Walk.collect { s.engine.selector with rules := [] } s.source
  let wanted := w.found.eraseReps.filter (fun p => s.engine.eligible ⟨[]⟩ p.text)
  let stats ← wanted.mapM (fun p =>
    match s.source.stat p with
    | .ok stat => .ok (some (p.text, stat.size, stat.mtime))
    | .error (.os _) => .ok none
    | .error fault => .error fault)
  return stats.filterMap id

def poll (s : State) : Except Fault Bool × State :=
  match s.look with
  | .error fault => (.error fault, s)
  | .ok seen =>
      let s' := { s with snapshot := some seen }
      match s.snapshot with
      | none => (.ok false, s')
      | some before =>
          if before == seen then (.ok false, s') else (.ok true, s'.trigger.2)

def polls (now : String) : Nat → State → Except Fault Unit × State
  | 0, s => (.ok (), s)
  | count + 1, s =>
      match s.poll with
      | (.error fault, s') => (.error fault, s')
      | (.ok _, s') => (s'.turn now).polls now count

def close (now : String) (s : State) : State :=
  let s' := { s with tasks := s.tasks.map markCancelled, pending := false }
  (List.range 4).foldl (fun s _ => s.turn now) s'

end State
end DebugSweep.Watch
