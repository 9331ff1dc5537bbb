import DebugSweep.CommandLine.Run
import Std.Time.DateTime.Timestamp

/-! The command. Files are taken in before each step and what changed is written back after it;
everything between is in `CommandLine`. -/
namespace DebugSweep.Main

def clock : IO String := do
  return Time.stamp ((← Std.Time.Timestamp.now).toNanosecondsSinceUnixEpoch.toInt.fdiv 1000)

def placeOf (text : String) : AbsPath := (Written.ofText text).placeFrom ⟨[]⟩

def mtimeOf (t : IO.FS.SystemTime) : Int := 1000000000 * t.sec + t.nsec.toNat

partial def takeIn (d : Disk) (p : AbsPath) : IO Disk := do
  let path := (← IO.currentDir) / p.text
  let .ok found ← path.metadata.toBaseIO | return d
  match found.type with
  | .dir =>
      let mut d := d.put p .dir
      for entry in ← path.readDir do
        d ← takeIn d (p.child entry.fileName)
      return d
  | .file => return d.put p (.file (← IO.FS.readBinFile path) (mtimeOf found.modified))
  | .other => return d.put p (.special (mtimeOf found.modified))
  | .symlink => return d

def diskOf (places : List AbsPath) : IO Disk := do
  let here := placeOf (← IO.currentDir).toString
  let above := places.map (fun p => p.parent)
  let empty : Disk := { here }
  let start := above.foldl (fun d p => (d.makeDirs p).toOption.getD d) empty
  places.foldlM takeIn start

def putBack (old : Disk) (p : AbsPath) (node : Node) : IO Unit := do
  match node, old.get? p with
  | .dir, some .dir => return
  | .dir, _ => IO.FS.createDirAll p.text
  | .file content time, some (.file _ time') =>
      if time != time' then IO.FS.writeBinFile p.text content
  | .file content _, _ => IO.FS.writeBinFile p.text content
  | .special _, _ => return

def writeBack (old new : Disk) : IO Unit := do
  for (p, node) in new.nodes do
    putBack old p node
  for (p, _) in old.nodes do
    if old.isLeaf p && (new.get? p).isNone then IO.FS.removeFile p.text

/-- No other program is run from here, so version control gives no answer. -/
def noGit : Guard.Git := fun _ => { stderr := "git is not available", returncode := 127 }

def fail (fault : Fault) : IO UInt32 := do
  IO.eprintln ("debug-manager: " ++ fault.message)
  return 1

def finish (o : CommandLine.Outcome) : IO UInt32 := do
  IO.print o.stdout
  IO.eprint o.stderr
  return o.exit.toUInt32

partial def serve (load : IO Disk) (server : Server) : IO UInt32 := do
  let line ← (← IO.getStdin).getLine
  if line.isEmpty then return 0
  let d ← load
  let (responses, ended, site) :=
    ({ server, source := { disk := d } } : Site).serve (← clock) line.toList
  writeBack d site.disk
  for response in responses do
    IO.println response.text
  (← IO.getStdout).flush
  match ended with
  | .ok () => serve load site.server
  | .error fault => fail fault

partial def watch (load : IO Disk) (pause : UInt32) (s : Watch.State) : IO UInt32 := do
  IO.sleep pause
  match CommandLine.watchRound (← clock) (← load) s with
  | .error fault => fail fault
  | .ok (lines, s') =>
      IO.print lines
      (← IO.getStdout).flush
      watch load pause s'

def millis (seconds : UInt64) : UInt32 := (Float.ofBits seconds * 1000).toUInt32

def runWith (settings : Settings) (load : IO Disk) (command : CommandLine.Command) : IO UInt32 := do
  let d ← load
  match command with
  | .serve =>
      match Server.create settings d with
      | .error fault => fail fault
      | .ok (server, d') =>
          writeBack d d'
          serve load server
  | .watch =>
      match CommandLine.watchStart settings d (← clock) with
      | .error fault => fail fault
      | .ok (line, s) =>
          IO.print line
          (← IO.getStdout).flush
          watch load (millis settings.watch.pollInterval) s
  | command =>
      let (outcome, d') := CommandLine.runCommand settings d { now := ← clock, git := noGit } command
      writeBack d d'
      match outcome with
      | .ok outcome => finish outcome
      | .error fault => fail fault

def namedPlaces (i : CommandLine.Invocation) (here : AbsPath) : List AbsPath :=
  let paths := match i.command with
    | .scan paths _ _ => paths
    | _ => []
  (i.root :: i.dataDir.toList ++ paths).map (fun text => (Written.ofText text).placeFrom here)

def run (args : List String) : IO UInt32 := do
  match CommandLine.Invocation.read args with
  | .error refusal => finish (CommandLine.ofRefusal refusal)
  | .ok i =>
      let named := namedPlaces i (placeOf (← IO.currentDir).toString)
      let d ← diskOf named
      match i.prepare d with
      | .error fault => fail fault
      | .ok (.error outcome) => finish outcome
      | .ok (.ok settings) =>
          runWith settings (diskOf (named ++ settings.dataDir :: settings.scan.roots)) i.command

end DebugSweep.Main

def main (args : List String) : IO UInt32 := DebugSweep.Main.run args
