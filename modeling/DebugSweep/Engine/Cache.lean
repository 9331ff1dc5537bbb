import DebugSweep.Finding

/-! Findings of files that were scanned before, each with a mark of the file's size and time. -/
namespace DebugSweep

def fingerprint (size mtime : Int) : String := toString size ++ "-" ++ toString mtime

structure CacheEntry where
  path : String
  size : Int
  mtime : Int
  mark : String
  findings : List Finding
  deriving DecidableEq, Repr

structure Cache where
  entries : List CacheEntry := []
  deriving DecidableEq, Repr

namespace Cache

def get? (c : Cache) (path : String) : Option CacheEntry :=
  c.entries.find? (fun e => e.path == path)

def lookup? (c : Cache) (path mark : String) : Option (List Finding) :=
  match c.get? path with
  | some e => if e.mark == mark then some e.findings else none
  | none => none

def discard (c : Cache) (path : String) : Cache := ⟨c.entries.filter (fun e => e.path != path)⟩

def store (c : Cache) (path : String) (size mtime : Int) (findings : List Finding) : Cache :=
  ⟨⟨path, size, mtime, fingerprint size mtime, findings⟩ :: (c.discard path).entries⟩

def clear (c : Cache) : Cache := { c with entries := [] }

def paths (c : Cache) : List String :=
  (c.entries.map CacheEntry.path).mergeSort (fun a b => decide (a ≤ b))

def size (c : Cache) : Nat := c.entries.length

end Cache
end DebugSweep
