import DebugSweep.Engine.Basic
import DebugSweep.Journal.Log
import DebugSweep.Server.Registry
import DebugSweep.Store.Bookmarks
import DebugSweep.Store.Excludes

/-! The server: an engine with its stores and its journal. -/
namespace DebugSweep

inductive Tool where
  | status
  | scanWorkspace
  | scanFiles
  | insertDump
  | clear
  | bookmark
  | bookmarks
  | exclude
  | exportFindings
  | auditLog
  deriving DecidableEq, Repr

def toolNames : List (String × Tool) :=
  [("debug.status", .status), ("debug.scan_workspace", .scanWorkspace),
   ("debug.scan_files", .scanFiles), ("debug.insert_dump", .insertDump), ("debug.clear", .clear),
   ("debug.bookmark", .bookmark), ("debug.bookmarks", .bookmarks), ("debug.exclude", .exclude),
   ("debug.export", .exportFindings), ("debug.audit_log", .auditLog)]

def toolRegistry : Registry Tool := ⟨toolNames⟩

structure Server where
  /-- Settings without the excludes that users manage; the engine has them with these. -/
  settings : Settings
  excludes : Excludes
  engine : Engine
  bookmarks : Bookmarks
  journal : AbsPath
  unnamed : Nat := 0

structure Site where
  server : Server
  source : Source

namespace Server

def create (settings : Settings) (d : Disk) : Except Fault (Server × Disk) := do
  let excludes ← Excludes.load d (settings.dataDir.child Excludes.fileName)
  let engine : Engine := { settings := settings.withExcludes excludes.patterns }
  let bookmarks ← Bookmarks.load d (settings.dataDir.child Bookmarks.fileName)
  let journal := settings.dataDir.child Journal.fileName
  let d' ← Journal.prepare d journal
  return ({ settings, excludes, engine, bookmarks, journal }, d')

end Server

namespace Site

def disk (s : Site) : Disk := s.source.disk

def withDisk (s : Site) (d : Disk) : Site := { s with source := { s.source with disk := d } }

def withEngine (s : Site) (engine : Engine) (source : Source) : Site :=
  { server := { s.server with engine }, source }

def scanWorkspace (s : Site) (now : String) : Except Fault ScanResult × Site :=
  let (result, engine, source) := s.server.engine.scanWorkspace s.source now
  (result, s.withEngine engine source)

def scanFiles (s : Site) (now : String) (paths : List String) : Except Fault ScanResult × Site :=
  let (result, engine, source) := s.server.engine.scanFiles s.source now paths
  (result, s.withEngine engine source)

def currentFindings (s : Site) (now : String) : Except Fault (List Finding) × Site :=
  match s.server.engine.last with
  | some result => (.ok result.findings, s)
  | none =>
      let (result, s') := s.scanWorkspace now
      (result.map ScanResult.findings, s')

end Site
end DebugSweep
