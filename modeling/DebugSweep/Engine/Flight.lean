import DebugSweep.Engine.Basic

/-! Scans cut at their waits: for the listing of a directory, the size or the text of a file, the end of a
batch, and the pause after many files. Any number of calls can be made, and each wait ends whenever it
likes, with whatever the files have become. -/
namespace DebugSweep.Flight

inductive Progress where
  | sizing
  | reading (stat : FileStat)
  | done (outcome : Outcome)

structure Plan where
  total : Nat
  rest : List AbsPath
  tally : Engine.Tally
  recent : Nat := 0

inductive Stage where
  | listing (walk : Walk)
  | gathering (files : List (AbsPath × Progress)) (plan : Plan)
  | pausing (plan : Plan)

inductive Turn where
  | waits (stage : Stage)
  | ends (result : Except Fault ScanResult)

def pauseEvery : Nat := 200

def Plan.proceed (e : Engine) (plan : Plan) : Turn :=
  match plan.rest with
  | [] => .ends (.ok (plan.tally.result plan.total))
  | _ :: _ =>
      let size := e.settings.limits.batchSize
      .waits (.gathering ((plan.rest.take size).map (·, .sizing)) { plan with rest := plan.rest.drop size })

def survey (e : Engine) (now : String) (w : Walk) : Turn :=
  match w.stack with
  | _ :: _ => .waits (.listing w)
  | [] =>
      Plan.proceed e {
        total := w.found.length
        rest := w.found.mergeSort AbsPath.notAfter
        tally := { errors := (Engine.walkErrors now w).reverse } }

inductive Ask where
  | files (here : AbsPath) (paths : List String)
  | workspace

def Ask.start (e : Engine) (now : String) : Ask → Turn
  | .files here paths =>
      match paths.mapM (Path.resolve here) with
      | .error fault => .ends (.error fault)
      | .ok places =>
          let wanted := (Engine.distinct places).filter (fun p => e.eligible here p.text)
          Plan.proceed e { total := wanted.length, rest := wanted, tally := {} }
  | .workspace => survey e now (Walk.start e.selector)

def Progress.step (e : Engine) (source : Source) (p : AbsPath) : Progress → Progress × Engine
  | .sizing =>
      match e.glance source p with
      | .known outcome e' => (.done outcome, e')
      | .needsText stat => (.reading stat, e)
  | .reading stat =>
      let (outcome, e') := e.absorb p stat (source.readText p).1
      (.done outcome, e')
  | .done outcome => (.done outcome, e)

def outcomes? : List (AbsPath × Progress) → Option (List (AbsPath × Outcome))
  | [] => some []
  | (p, .done outcome) :: rest => (outcomes? rest).map ((p, outcome) :: ·)
  | _ => none

def Plan.takeIn (e : Engine) (now : String) (plan : Plan) (outcomes : List (AbsPath × Outcome)) : Turn :=
  match plan.tally.add now outcomes with
  | .error fault => .ends (.error fault)
  | .ok tally =>
      let recent := plan.recent + outcomes.length
      if pauseEvery ≤ recent then .waits (.pausing { plan with tally, recent := 0 })
      else { plan with tally, recent }.proceed e

inductive Move where
  | file (index : Nat)
  | next

/-- A scan goes on to its next wait; it stays where it is if it does not wait for this. -/
def Stage.resume (e : Engine) (source : Source) (now : String) (stage : Stage) : Move → Turn × Engine
  | .file index =>
      match stage with
      | .gathering files plan =>
          match files[index]? with
          | some (p, progress) =>
              let (progress', e') := progress.step e source p
              (.waits (.gathering (files.set index (p, progress')) plan), e')
          | none => (.waits stage, e)
      | _ => (.waits stage, e)
  | .next =>
      match stage with
      | .listing w =>
          match w.step e.selector source with
          | .error fault => (.ends (.error fault), e)
          | .ok w' => (survey e now w', e)
      | .gathering files plan =>
          match outcomes? files with
          | none => (.waits stage, e)
          | some outcomes => (plan.takeIn e now outcomes, e)
      | .pausing plan => (plan.proceed e, e)

structure Reply where
  call : Nat
  admitted : Bool
  result : Except Fault ScanResult

end Flight

structure Flight where
  engine : Engine
  running : List (Nat × Flight.Stage) := []
  calls : Nat := 0
  /-- The last one first. -/
  replies : List Flight.Reply := []

namespace Flight

inductive Event where
  | call (ask : Ask) (now : String)
  | resume (call : Nat) (source : Source) (now : String) (move : Move)
  | fail (call : Nat) (fault : Fault)

def land (f : Flight) (call : Nat) : Turn → Flight
  | .waits stage =>
      { f with running := (call, stage) :: f.running.filter (fun scan => scan.1 != call) }
  | .ends result =>
      { f with
        engine := f.engine.settle result
        running := f.running.filter (fun scan => scan.1 != call)
        replies := ⟨call, true, result⟩ :: f.replies }

def stage? (f : Flight) (call : Nat) : Option Stage :=
  (f.running.find? (fun scan => scan.1 == call)).map Prod.snd

def step (f : Flight) : Event → Flight
  | .call ask now =>
      let next := { f with calls := f.calls + 1 }
      if f.engine.scanning then { next with replies := ⟨f.calls, false, .ok .empty⟩ :: f.replies }
      else
        let engine := { f.engine with scanning := true }
        { next with engine }.land f.calls (ask.start engine now)
  | .resume call source now move =>
      match f.stage? call with
      | none => f
      | some stage =>
          let (turn, engine) := stage.resume f.engine source now move
          { f with engine }.land call turn
  | .fail call fault =>
      match f.stage? call with
      | none => f
      | some _ => f.land call (.ends (.error fault))

def run (f : Flight) (events : List Event) : Flight := events.foldl step f

end Flight
end DebugSweep
