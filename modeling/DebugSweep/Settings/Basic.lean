import DebugSweep.Edit.Expression
import DebugSweep.Edit.Insertion
import DebugSweep.Path.Resolve

/-! Settings of a workspace: built-in values, their public form, and additional excludes. -/
namespace DebugSweep

structure ScanSettings where
  roots : List AbsPath
  includeExtensions : List String := [".php"]
  excludeGlobs : List String := ["**/vendor/**", "**/node_modules/**"]
  skipDirNames : List String :=
    ["vendor", "node_modules", ".git", ".svn", ".hg", "cache", "temp", "tmp", "logs", "storage",
     ".history", "tests", "test", "spec", "docs", "documentation"]
  deriving DecidableEq, Repr

structure Limits where
  maxFileBytes : Nat := 1048576
  batchSize : Nat := 50
  maxResponseBytes : Nat := 1048576
  deriving DecidableEq, Repr

structure EditorSettings where
  tabSize : Nat := 4
  insertSpaces : Bool := true
  language : String := "php"
  deriving DecidableEq, Repr

structure GuardSettings where
  enabled : Bool := true
  mode : String := "strict"
  deriving DecidableEq, Repr

/-- Waiting times in seconds, as doubles. -/
structure WatchSettings where
  debounce : UInt64 := 0x3ff0000000000000
  pollInterval : UInt64 := 0x4000000000000000
  deriving DecidableEq, Repr

structure Settings where
  workspaceRoot : AbsPath
  dataDir : AbsPath
  scan : ScanSettings
  limits : Limits := {}
  editor : EditorSettings := {}
  guard : GuardSettings := {}
  watch : WatchSettings := {}
  deriving DecidableEq, Repr

namespace Settings

def maxFileBytesCap : Nat := 16777216

def batchSizeCap : Nat := 500

def maxResponseBytesCap : Nat := 8388608

def tabSizeCap : Nat := 16

def guardModes : List String := ["strict", "warn", "lenient"]

def default (root : AbsPath) : Settings :=
  { workspaceRoot := root, dataDir := root.child ".debug_manager", scan := { roots := [root] } }

def rootTexts (s : Settings) : List String := s.scan.roots.map AbsPath.text

def toValue (s : Settings) : Value :=
  .record [("workspace_root", .text s.workspaceRoot.text), ("data_dir", .text s.dataDir.text),
    ("scan", .record [("roots", Value.ofTexts s.rootTexts),
      ("include_extensions", Value.ofTexts s.scan.includeExtensions),
      ("exclude_globs", Value.ofTexts s.scan.excludeGlobs),
      ("skip_dir_names", Value.ofTexts s.scan.skipDirNames)]),
    ("limits", .record [("max_file_bytes", .ofNat s.limits.maxFileBytes),
      ("batch_size", .ofNat s.limits.batchSize),
      ("max_total_bytes_per_response", .ofNat s.limits.maxResponseBytes)]),
    ("editor", .record [("tab_size", .ofNat s.editor.tabSize),
      ("insert_spaces", .bool s.editor.insertSpaces), ("language", .text s.editor.language)]),
    ("guard", .record [("enabled", .bool s.guard.enabled), ("mode", .text s.guard.mode)]),
    ("watch", .record [("debounce_seconds", .real s.watch.debounce),
      ("poll_interval_seconds", .real s.watch.pollInterval)])]

def addNew (known items : List String) : List String :=
  items.foldl (fun known item => if known.contains item then known else known ++ [item]) known

def withExcludes (s : Settings) (patterns : List String) : Settings :=
  { s with scan := { s.scan with excludeGlobs := addNew s.scan.excludeGlobs patterns } }

end Settings
end DebugSweep
