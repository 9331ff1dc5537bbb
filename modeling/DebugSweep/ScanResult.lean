import DebugSweep.Finding

/-! Results of scans. Findings stand by path, line and column, errors by path. -/
namespace DebugSweep

structure ScanError where
  filePath : String
  error : String
  code : String
  timestamp : String
  deriving DecidableEq, Repr

def ScanError.toValue (e : ScanError) : Value :=
  .record [("file_path", .text e.filePath), ("error", .text e.error), ("code", .text e.code),
    ("timestamp", .text e.timestamp)]

structure ScanResult where
  findings : List Finding := []
  scannedFiles : Nat := 0
  total : Nat := 0
  errors : List ScanError := []
  deriving DecidableEq, Repr

namespace ScanResult

def empty : ScanResult := {}

/-- Scans see one unchanging state of the files, so no time passes in them. -/
def toValue (r : ScanResult) : Value :=
  .record [("statements", .list (r.findings.map Finding.toValue)),
    ("scanned_files", .ofNat r.scannedFiles), ("total_statements", .ofNat r.total),
    ("errors", .list (r.errors.map ScanError.toValue)), ("scan_time_ms", .int 0)]

def ofParts (findings : List Finding) (scannedFiles : Nat) (errors : List ScanError) : ScanResult :=
  { findings := Finding.sort findings
    scannedFiles
    total := findings.length
    errors := errors.mergeSort (fun a b => decide (a.filePath ≤ b.filePath)) }

def hide (r : ScanResult) (kinds : List String) : ScanResult :=
  if kinds.isEmpty then r
  else
    let kept := r.findings.filter (fun f => !kinds.contains f.kind.token)
    { r with findings := kept, total := kept.length }

end ScanResult
end DebugSweep
