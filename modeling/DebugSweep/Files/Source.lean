import DebugSweep.Files.Disk
import DebugSweep.Text.Lines

/-! The view of the files that a scan has: listing, size and time, and text. Chosen paths can be
made to fail, and every request for a text is noted. -/
namespace DebugSweep

inductive Trouble where
  | os (errno : Nat) (reason : String)
  | crash (text : String)
  deriving DecidableEq, Repr

structure Faults where
  listDir : List (String × Trouble) := []
  stat : List (String × Trouble) := []
  readText : List (String × Trouble) := []
  deriving DecidableEq, Repr

structure Source where
  disk : Disk
  faults : Faults := {}
  /-- Paths whose text was asked for, the last one first. -/
  reads : List String := []

structure FileStat where
  size : Nat
  mtime : Int
  deriving DecidableEq, Repr

namespace Source

def troubled (table : List (String × Trouble)) (path : String) : Except Fault Unit :=
  match table.find? (fun entry => entry.1 == path) with
  | some (_, .os errno reason) => .error (.os ⟨errno, reason, path, none⟩)
  | some (_, .crash text) => .error (.crash text)
  | none => .ok ()

def listDir (s : Source) (p : AbsPath) : Except Fault (List (String × EntryKind)) := do
  troubled s.faults.listDir p.text
  (s.disk.list p).mapError .os

/-- A directory has the size of one block, and a node without content none. -/
def stat (s : Source) (p : AbsPath) : Except Fault FileStat := do
  troubled s.faults.stat p.text
  match ← (s.disk.find p).mapError Fault.os with
  | .file content mtime => return ⟨content.size, mtime⟩
  | .dir => return ⟨4096, 0⟩
  | .special mtime => return ⟨0, mtime⟩

/-- Text with every line ending as a line feed; bytes that are no text are replaced. -/
def textOf (content : ByteArray) : List Char :=
  Text.normalizeEndings (Text.decodeLossy content).toList

def readText (s : Source) (p : AbsPath) : Except Fault (List Char) × Source :=
  let noted := { s with reads := p.text :: s.reads }
  let result := do
    troubled s.faults.readText p.text
    return textOf (← (s.disk.read p).mapError Fault.os)
  (result, noted)

end Source
end DebugSweep
