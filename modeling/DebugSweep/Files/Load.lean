import DebugSweep.Files.Disk
import DebugSweep.Json.Reader
import DebugSweep.Settings.Merge
import DebugSweep.Toml.Reader

/-! Values read from files, and settings of a workspace with its configuration file. -/
namespace DebugSweep.Files

def readFault (format : Format) : ReadError → Fault
  | .malformed => .undecodable format
  | .longNumber digits => .invalid (.longNumber digits)

def readText (d : Disk) (p : AbsPath) : Except Fault String := do
  match Text.decode? (← (d.read p).mapError Fault.os) with
  | some text => return text
  | none => throw (.undecodable .utf8)

def readJson (d : Disk) (p : AbsPath) : Except Fault Value := do
  (Json.read (← readText d p)).mapError (readFault .json)

def configName : String := "debug_manager.toml"

def configOf (d : Disk) (root : AbsPath) : Except Fault Settings.Fields := do
  let p := root.child configName
  match d.get? p with
  | none => return []
  | some _ => (Toml.read (← readText d p)).mapError (readFault .toml)

def settings (d : Disk) (root : AbsPath) (o : Settings.Overrides) : Except Fault Settings := do
  Settings.merge d.here (Settings.default root) (← configOf d root) o

end DebugSweep.Files
