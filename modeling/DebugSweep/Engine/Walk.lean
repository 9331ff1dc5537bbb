import DebugSweep.Files.Source
import DebugSweep.Glob

/-! The files below the scan roots, found with a stack of directories to enter. -/
namespace DebugSweep

structure Selector where
  roots : List AbsPath
  rules : List Glob.Rule
  skipDirNames : List String
  includeExtensions : List String
  deriving DecidableEq, Repr

namespace Selector

def rootTexts (sel : Selector) : List String := sel.roots.map AbsPath.text

def excludes (sel : Selector) (p : AbsPath) (isDir : Bool) : Bool :=
  Glob.excluded ⟨[]⟩ sel.rules sel.rootTexts p.text isDir

def enters (sel : Selector) (p : AbsPath) : Bool :=
  !Glob.skippedDirectory sel.skipDirNames p.name && !sel.excludes p true

def takes (sel : Selector) (p : AbsPath) : Bool :=
  Glob.allowedExtension sel.includeExtensions p.name && !sel.excludes p false

end Selector

structure Walk where
  stack : List AbsPath
  found : List AbsPath := []
  errors : List (AbsPath × Fault) := []
  deriving DecidableEq, Repr

namespace Walk

def start (sel : Selector) : Walk := { stack := sel.roots }

def named (p : AbsPath) (kind : EntryKind) (entries : List (String × EntryKind)) : List AbsPath :=
  (entries.filter (fun entry => entry.2 == kind)).map (fun entry => p.child entry.1)

def enter (sel : Selector) (w : Walk) (p : AbsPath) (entries : List (String × EntryKind)) : Walk :=
  { w with
    stack := (named p .dir entries).filter sel.enters ++ w.stack
    found := (named p .file entries).filter sel.takes ++ w.found }

def step (sel : Selector) (source : Source) (w : Walk) : Except Fault Walk :=
  match w.stack with
  | [] => .ok w
  | p :: stack =>
      match source.listDir p with
      | .ok entries => .ok ({ w with stack }.enter sel p entries)
      | .error (.os failure) =>
          .ok { w with stack, errors := w.errors ++ [(p, .unlistable failure.message)] }
      | .error fault => .error fault

def run (sel : Selector) (source : Source) : Nat → Walk → Except Fault Walk
  | 0, w => .ok w
  | fuel + 1, w =>
      match w.stack with
      | [] => .ok w
      | _ :: _ =>
          match w.step sel source with
          | .ok w' => run sel source fuel w'
          | .error fault => .error fault

/-- Every directory is visited at most once from each root. -/
def bound (sel : Selector) (source : Source) : Nat :=
  sel.roots.length * (source.disk.nodes.length + 1) + 1

def collect (sel : Selector) (source : Source) : Except Fault Walk := do
  let w ← run sel source (bound sel source) (start sel)
  return { w with found := w.found.mergeSort AbsPath.notAfter }

end Walk
end DebugSweep
