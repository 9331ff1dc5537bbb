import DebugSweep.Engine.Flight
import DebugSweep.Watch

/-! The watch loop cut at its waits: a first scan, then one poll after the other, and a scan some time
after a poll has found a difference. Between any two requests the files can change. -/
namespace DebugSweep.Watch

abbrev Snapshot := List (String × Nat × Int)

def Snapshot.note (seen : Snapshot) (entry : String × Nat × Int) : Snapshot :=
  if seen.any (fun old => old.1 == entry.1) then
    seen.map (fun old => if old.1 == entry.1 then entry else old)
  else seen ++ [entry]

inductive Post where
  | opening
  | walking (walk : Walk)
  | sizing (files : List AbsPath) (seen : Snapshot)
  | resting

structure Loop where
  flight : Flight
  disk : Disk
  post : Post := .opening
  pending : Bool := false
  snapshot : Option Snapshot := none

namespace Loop

def source (l : Loop) : Source := { disk := l.disk }

def start (settings : Settings) (disk : Disk) (now : String) : Loop :=
  { flight := Flight.step { engine := { settings } } (.call .workspace now), disk }

/-- Ends a poll. A difference asks for a scan, unless one runs or is already waited for. -/
def conclude (l : Loop) (seen : Snapshot) : Loop :=
  let differs := l.snapshot.any (· != seen)
  { l with
    post := .resting
    snapshot := some seen
    pending := l.pending || (differs && !l.flight.engine.scanning) }

def measure (l : Loop) (files : List AbsPath) (seen : Snapshot) : Loop :=
  match files with
  | [] => l.conclude seen
  | _ :: _ => { l with post := .sizing files seen }

def survey (l : Loop) (w : Walk) : Loop :=
  match w.stack with
  | _ :: _ => { l with post := .walking w }
  | [] =>
      l.measure ((w.found.mergeSort AbsPath.notAfter).filter
        (fun p => l.flight.engine.eligible ⟨[]⟩ p.text)) []

/-- The poller enters directories whether or not a rule excludes them. -/
def selector (l : Loop) : Selector := { l.flight.engine.selector with rules := [] }

def watch (l : Loop) : Loop :=
  match l.post with
  | .opening =>
      if l.flight.replies.any (fun reply => reply.call == 0) then l.survey (Walk.start l.selector) else l
  | .resting => l.survey (Walk.start l.selector)
  | .walking w =>
      match w.step l.selector l.source with
      | .ok w' => l.survey w'
      -- The walk notes directories that cannot be listed; only a fault of the source ends it.
      | .error _ => l
  | .sizing [] seen => l.conclude seen
  | .sizing (p :: rest) seen =>
      match l.source.stat p with
      | .ok stat => l.measure rest (seen.note (p.text, stat.size, stat.mtime))
      | .error _ => l.measure rest seen

inductive Event where
  | outside (disk : Disk)
  | scan (call : Nat) (now : String) (move : Flight.Move)
  | watch
  | expire (now : String)

def step (l : Loop) : Event → Loop
  | .outside disk => { l with disk }
  | .scan call now move => { l with flight := l.flight.step (.resume call l.source now move) }
  | .watch => l.watch
  | .expire now =>
      if l.pending then { l with pending := false, flight := l.flight.step (.call .workspace now) } else l

def run (l : Loop) (events : List Event) : Loop := events.foldl step l

def look (l : Loop) : Except Fault Snapshot :=
  State.look { engine := l.flight.engine, source := l.source }

def Quiet (l : Loop) : Prop :=
  l.flight.engine.scanning = false ∧ l.pending = false ∧ ∃ seen, l.snapshot = some seen ∧ l.look = .ok seen

end Loop
end DebugSweep.Watch
