import DebugSweep.Engine.Cache
import DebugSweep.Engine.Walk
import DebugSweep.Scan
import DebugSweep.ScanResult
import DebugSweep.Settings.Basic
import DebugSweep.Time

/-! Scans of files with a cache. One scan runs at a time; a request that finds one running gets
the empty result. -/
namespace DebugSweep

structure Engine where
  settings : Settings
  cache : Cache := {}
  scanning : Bool := false
  last : Option ScanResult := none

abbrev Outcome := Except Fault (List Finding)

namespace Engine

def reload (e : Engine) (settings : Settings) : Engine := { e with settings }

def selector (e : Engine) : Selector :=
  { roots := e.settings.scan.roots
    rules := Glob.rules e.settings.scan.excludeGlobs
    skipDirNames := e.settings.scan.skipDirNames
    includeExtensions := e.settings.scan.includeExtensions }

def eligible (e : Engine) (here : AbsPath) (path : String) : Bool :=
  Glob.allowedExtension e.settings.scan.includeExtensions path &&
    !Glob.excluded here e.selector.rules e.settings.rootTexts path false

def relativePath (e : Engine) (here : AbsPath) (path : String) : String :=
  match e.settings.rootTexts.findSome? (Path.relativeText? here path) with
  | some relative => relative
  | none => (Written.ofText path).text

def refuse (e : Engine) (p : AbsPath) (fault : Fault) : Outcome × Engine :=
  (.error fault, { e with cache := e.cache.discard p.text })

/-- A failure of the system concerns one file; any other one is passed on as it is. -/
def failed (e : Engine) (p : AbsPath) (fault : Fault) : Outcome × Engine :=
  match fault with
  | .os failure => e.refuse p (.unreadable failure.message)
  | fault => (.error fault, e)

inductive Glance where
  | known (outcome : Outcome) (engine : Engine)
  | needsText (stat : FileStat)

def glance (e : Engine) (source : Source) (p : AbsPath) : Glance :=
  match source.stat p with
  | .error fault => let (outcome, e') := e.failed p fault; .known outcome e'
  | .ok stat =>
      let limit := e.settings.limits.maxFileBytes
      if limit < stat.size then
        let (outcome, e') := e.refuse p (.fileTooLarge stat.size limit)
        .known outcome e'
      else
        match e.cache.lookup? p.text (fingerprint stat.size stat.mtime) with
        | some findings => .known (.ok findings) e
        | none => .needsText stat

def absorb (e : Engine) (p : AbsPath) (stat : FileStat) (text : Except Fault (List Char)) :
    Outcome × Engine :=
  match text with
  | .error fault => e.failed p fault
  | .ok chars =>
      let findings := Scan.text ⟨p.text, e.relativePath ⟨[]⟩ p.text⟩ chars
      (.ok findings, { e with cache := e.cache.store p.text stat.size stat.mtime findings })

def scanFile (e : Engine) (source : Source) (p : AbsPath) : Outcome × Engine × Source :=
  match e.glance source p with
  | .known outcome e' => (outcome, e', source)
  | .needsText stat =>
      let (text, source') := source.readText p
      let (outcome, e') := e.absorb p stat text
      (outcome, e', source')

def scanBatch (e : Engine) (source : Source) (done : List Outcome) :
    List AbsPath → List Outcome × Engine × Source
  | [] => (done.reverse, e, source)
  | p :: rest =>
      let (outcome, e', source') := e.scanFile source p
      e'.scanBatch source' (outcome :: done) rest

structure Tally where
  findings : List Finding := []
  errors : List ScanError := []
  deriving DecidableEq, Repr

def errorOf (now : String) (p : AbsPath) (fault : Fault) : Option ScanError :=
  fault.code?.map (fun code => ⟨p.text, fault.message, code, now⟩)

def Tally.add (now : String) : Tally → List (AbsPath × Outcome) → Except Fault Tally
  | t, [] => .ok t
  | t, (_, .ok findings) :: rest =>
      Tally.add now { t with findings := findings.reverse ++ t.findings } rest
  | t, (p, .error fault) :: rest =>
      match errorOf now p fault with
      | some error => Tally.add now { t with errors := error :: t.errors } rest
      | none => .error fault

def Tally.result (t : Tally) (scannedFiles : Nat) : ScanResult :=
  ScanResult.ofParts t.findings.reverse scannedFiles t.errors.reverse

def scanBatches (e : Engine) (source : Source) (now : String) (tally : Tally) :
    Nat → List AbsPath → Except Fault Tally × Engine × Source
  | 0, _ => (.ok tally, e, source)
  | fuel + 1, paths =>
      match paths with
      | [] => (.ok tally, e, source)
      | _ :: _ =>
          let batch := paths.take e.settings.limits.batchSize
          let (outcomes, e', source') := e.scanBatch source [] batch
          match tally.add now (batch.zip outcomes) with
          | .error fault => (.error fault, e', source')
          | .ok tally' =>
              e'.scanBatches source' now tally' fuel (paths.drop e.settings.limits.batchSize)

def settle (e : Engine) (result : Except Fault ScanResult) : Engine :=
  match result with
  | .ok r => { e with scanning := false, last := some r }
  | .error _ => { e with scanning := false }

def scanPaths (e : Engine) (source : Source) (now : String) (paths : List AbsPath)
    (prior : List ScanError) : Except Fault ScanResult × Engine × Source :=
  let (tally, e', source') := e.scanBatches source now { errors := prior.reverse } paths.length paths
  (tally.map (·.result paths.length), e', source')

def walkErrors (now : String) (w : Walk) : List ScanError :=
  w.errors.filterMap (fun (p, fault) => errorOf now p fault)

def distinct (paths : List AbsPath) : List AbsPath :=
  (paths.mergeSort AbsPath.notAfter).eraseReps

/-- Scans those of the given files that are eligible, each once. Where a path leads is for the system to say,
which follows links; what it names and the roots, which were asked for in the same way, have none. -/
def scanFilesBy {α : Type} (resolve : α → Except Fault AbsPath) (e : Engine) (source : Source) (now : String)
    (paths : List α) : Except Fault ScanResult × Engine × Source :=
  if e.scanning then (.ok .empty, e, source)
  else
    let here := source.disk.here
    let (result, e', source') : Except Fault ScanResult × Engine × Source :=
      match paths.mapM resolve with
      | .error fault => (.error fault, { e with scanning := true }, source)
      | .ok places =>
          let wanted := (distinct places).filter (fun p => e.eligible here p.text)
          { e with scanning := true }.scanPaths source now wanted []
    (result, e'.settle result, source')

def scanFiles (e : Engine) (source : Source) (now : String) (paths : List String) :
    Except Fault ScanResult × Engine × Source :=
  e.scanFilesBy (Path.resolve source.disk.here) source now paths

def scanWorkspace (e : Engine) (source : Source) (now : String) :
    Except Fault ScanResult × Engine × Source :=
  if e.scanning then (.ok .empty, e, source)
  else
    let (result, e', source') : Except Fault ScanResult × Engine × Source :=
      match Walk.collect e.selector source with
      | .error fault => (.error fault, { e with scanning := true }, source)
      | .ok w => { e with scanning := true }.scanPaths source now w.found (walkErrors now w)
    (result, e'.settle result, source')

end Engine
end DebugSweep
