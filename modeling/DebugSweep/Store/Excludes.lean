import DebugSweep.Store.ListFile

/-! Exclude patterns that users manage, in the order in which they were added. -/
namespace DebugSweep

structure Excludes where
  path : AbsPath
  patterns : List String := []
  deriving DecidableEq, Repr

namespace Excludes

def fileName : String := "excludes.json"

def load (d : Disk) (path : AbsPath) : Except Fault Excludes := do
  return { path, patterns := ← Store.load d path "glob patterns" }

def removed (known patterns : List String) : List String :=
  known.filter (fun p => !patterns.contains p)

def update (x : Excludes) (d : Disk) (patterns : List String) (add : Bool) :
    Except Fault Bool × Excludes × Disk :=
  let patterns' := if add then Settings.addNew x.patterns patterns else removed x.patterns patterns
  if patterns' == x.patterns then (.ok false, x, d)
  else
    let (saved, d') := Store.save d x.path patterns'
    (saved.map (fun _ => true), { x with patterns := patterns' }, d')

end Excludes
end DebugSweep
