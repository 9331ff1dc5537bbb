import DebugSweep.Store.ListFile

/-! Findings that are protected from clearing, by their ids. -/
namespace DebugSweep

structure Bookmarks where
  path : AbsPath
  ids : List String := []
  deriving DecidableEq, Repr

namespace Bookmarks

def fileName : String := "bookmarks.json"

def load (d : Disk) (path : AbsPath) : Except Fault Bookmarks := do
  return { path, ids := (← Store.load d path "statement ids").eraseDups }

def contains (b : Bookmarks) (id : String) : Bool := b.ids.contains id

def sorted (b : Bookmarks) : List String := b.ids.mergeSort (fun a b => decide (a ≤ b))

def toggle (b : Bookmarks) (d : Disk) (id : String) : Except Fault Bool × Bookmarks × Disk :=
  let known := b.contains id
  let b' := { b with ids := if known then b.ids.filter (· != id) else b.ids ++ [id] }
  let (saved, d') := Store.save d b.path b'.sorted
  (saved.map (fun _ => !known), b', d')

end Bookmarks
end DebugSweep
