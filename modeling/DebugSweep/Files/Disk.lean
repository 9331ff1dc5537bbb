import DebugSweep.Fault
import DebugSweep.Path.Written
import DebugSweep.Text.Utf8

/-! Files and directories, seen from a current directory. Every operation names what the system
would answer when it cannot be done. -/
namespace DebugSweep

inductive EntryKind where
  | file
  | dir
  | special
  deriving DecidableEq, Repr

inductive Node where
  | file (content : ByteArray) (mtime : Int)
  | dir
  /-- A socket, pipe or device. It is named, moved and removed as a file is, but it holds no text:
  opening one is answered as for a socket. -/
  | special (mtime : Int)

def Node.kind : Node → EntryKind
  | .file .. => .file
  | .dir => .dir
  | .special _ => .special

structure Disk where
  /-- Everything there is below the top, each path once. -/
  nodes : List (AbsPath × Node) := []
  here : AbsPath := ⟨[]⟩
  /-- How many files were written without a time of their own. -/
  serial : Nat := 0

namespace Disk

def get? (d : Disk) (p : AbsPath) : Option Node :=
  if p.names.isEmpty then some .dir
  else (d.nodes.find? (fun n => n.1 == p)).map Prod.snd

/-- Something is there below which nothing can be. -/
def isLeaf (d : Disk) (p : AbsPath) : Bool :=
  match d.get? p with
  | some .dir | none => false
  | some _ => true

def isDir (d : Disk) (p : AbsPath) : Bool :=
  match d.get? p with
  | some .dir => true
  | _ => false

/-- Why nothing is found at a path: it leads through a file, or ends nowhere. -/
def missing (d : Disk) (p : AbsPath) : OsFailure :=
  let above := (List.range p.names.length).map (fun n => (⟨p.names.take n⟩ : AbsPath))
  if above.any d.isLeaf then .notDirectory p.text else .noEntry p.text

def find (d : Disk) (p : AbsPath) : Except OsFailure Node :=
  match d.get? p with
  | some node => .ok node
  | none => .error (d.missing p)

/-- The place that the system finds for a path as written: each name has to be found in a
directory before the next one counts. -/
def walk (d : Disk) (w : Written) : Except OsFailure AbsPath :=
  let start : AbsPath := if w.root == "" then d.here else ⟨[]⟩
  w.names.foldlM (fun place name =>
    match d.get? place with
    | some .dir => .ok (if name == ".." then place.parent else place.child name)
    | some _ => .error (.notDirectory w.text)
    | none => .error (.noEntry w.text)) start

def read (d : Disk) (p : AbsPath) : Except OsFailure ByteArray := do
  match ← d.find p with
  | .file content _ => return content
  | .dir => throw (.isDirectory p.text)
  | .special _ => throw (.noDevice p.text)

def list (d : Disk) (p : AbsPath) : Except OsFailure (List (String × EntryKind)) := do
  match ← d.find p with
  | .file .. | .special _ => throw (.notDirectory p.text)
  | .dir =>
      let inside := d.nodes.filterMap (fun (q, node) =>
        if q.parent == p && !q.names.isEmpty then some (q.name, node.kind) else none)
      return inside.mergeSort (fun a b => decide (a.1 ≤ b.1))

def put (d : Disk) (p : AbsPath) (node : Node) : Disk :=
  if (d.nodes.any (fun n => n.1 == p)) then
    { d with nodes := d.nodes.map (fun n => if n.1 == p then (p, node) else n) }
  else { d with nodes := d.nodes ++ [(p, node)] }

/-- Times that the system gives to files written here; each is given once. -/
def timeOf (serial : Nat) : Int := 1700000000000000000 + serial

def write (d : Disk) (p : AbsPath) (content : ByteArray) : Except OsFailure Disk :=
  match d.get? p with
  | some .dir => .error (.isDirectory p.text)
  | some (.special _) => .error (.noDevice p.text)
  | some (.file ..) => .ok { d.put p (.file content (timeOf d.serial)) with serial := d.serial + 1 }
  | none =>
      if d.isDir p.parent then
        .ok { d.put p (.file content (timeOf d.serial)) with serial := d.serial + 1 }
      else .error (d.missing p)

def append (d : Disk) (p : AbsPath) (content : ByteArray) : Except OsFailure Disk :=
  match d.get? p with
  | some (.file old _) => d.write p (old ++ content)
  | _ => d.write p content

def remove (d : Disk) (p : AbsPath) : Disk :=
  { d with nodes := d.nodes.filter (fun n => (p.below? n.1).isNone) }

def replace (d : Disk) (source target : AbsPath) : Except OsFailure Disk :=
  match d.get? source, d.get? target with
  | some (.file ..), some .dir | some (.special _), some .dir =>
      .error { OsFailure.isDirectory source.text with target := some target.text }
  | some node, _ => .ok ((d.remove source).put target node)
  | none, _ => .error { d.missing source with target := some target.text }

def makeDirs (d : Disk) (p : AbsPath) : Except OsFailure Disk :=
  match d.get? p with
  | some .dir => .ok d
  | some (.file ..) | some (.special _) => .error (.alreadyThere p.text)
  | none =>
      let above := (List.range p.names.length).map (fun n => (⟨p.names.take n⟩ : AbsPath))
      if above.any d.isLeaf then .error (.notDirectory p.text)
      else
        let wanted := above ++ [p]
        .ok (wanted.foldl (fun d q => if d.isDir q then d else d.put q .dir) d)

def filesBelow (d : Disk) (p : AbsPath) : List AbsPath :=
  (d.nodes.filterMap (fun (q, node) =>
    match node with
    | .file .. => if (p.below? q).isSome then some q else none
    | .dir | .special _ => none)).mergeSort AbsPath.notAfter

end Disk
end DebugSweep
