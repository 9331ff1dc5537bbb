import DebugSweep.Clear.Lines
import DebugSweep.Files.Disk
import DebugSweep.Text.Lines
import DebugSweep.Value

/-! Removal of findings from the files they were found in. -/
namespace DebugSweep.Clear
open Text

structure Report where
  cleared : Nat := 0
  skippedBookmarked : Nat := 0
  stale : Nat := 0
  filesChanged : List String := []
  failedFiles : List String := []
  deriving DecidableEq, Repr

def Report.toValue (r : Report) : Value :=
  .record [("cleared", .ofNat r.cleared), ("skipped_bookmarked", .ofNat r.skippedBookmarked),
    ("stale", .ofNat r.stale), ("files_changed", Value.ofTexts r.filesChanged),
    ("failed_files", Value.ofTexts r.failedFiles)]

/-- How files are found, read and changed. What is asked may fail, and each answer comes with what is then there. -/
structure FileOps (σ : Type) where
  walk : σ → Written → Option AbsPath
  read : σ → AbsPath → Option ByteArray × σ
  write : σ → AbsPath → ByteArray → Bool × σ
  replace : σ → AbsPath → AbsPath → Bool × σ
  unlink : σ → AbsPath → σ

def tidy (d : Disk) (p : AbsPath) : Disk := if d.isLeaf p then d.remove p else d

def attempt (d : Disk) : Except OsFailure Disk → Bool × Disk
  | .ok d' => (true, d')
  | .error _ => (false, d)

def FileOps.plain : FileOps Disk where
  walk d w := (d.walk w).toOption
  read d p := ((d.read p).toOption, d)
  write d p content := attempt d (d.write p content)
  replace d source target := attempt d (d.replace source target)
  unlink := tidy

section
variable {σ : Type} (ops : FileOps σ)

def sourceOf? (s : σ) (path : String) : Option (AbsPath × String) × σ :=
  match ops.walk s (Written.ofText path) with
  | none => (none, s)
  | some place =>
      let (content, s') := ops.read s place
      ((content.bind decode?).map (fun text => (place, text)), s')

/-- Writes a text and moves it to its place; on failure nothing is left of it. -/
def swapIn (s : σ) (p : AbsPath) (text : List Char) : Option Unit × σ :=
  match ops.write s p.draft (String.ofList text).toUTF8 with
  | (false, s') => (none, ops.unlink s' p.draft)
  | (true, s') =>
      match ops.replace s' p.draft p with
      | (false, s'') => (none, ops.unlink s'' p.draft)
      | (true, s'') => (some (), s'')

def clearFile (r : Report) (s : σ) (path : String) (findings : List Finding) : Report × σ :=
  match sourceOf? ops s path with
  | (none, s') => ({ r with failedFiles := r.failedFiles ++ [path] }, s')
  | (some (place, text), s') =>
      let cut := fromLines (lines text.toList) findings
      let r := { r with stale := r.stale + cut.stale }
      if cut.cleared == 0 then (r, s')
      else
        match swapIn ops s' place (unlines cut.lines) with
        | (some (), s'') =>
            ({ r with cleared := r.cleared + cut.cleared, filesChanged := r.filesChanged ++ [path] }, s'')
        | (none, s'') => ({ r with failedFiles := r.failedFiles ++ [path] }, s'')

/-- Clears files one after the other. A path that can name no file ends it; what was cleared
before stays so. -/
def clearEach (findings : List Finding) (r : Report) (s : σ) : List String → Except Fault Report × σ
  | [] => (.ok r, s)
  | path :: rest =>
      if (Written.ofText path).hasNull then (.error (.invalid .nullByte), s)
      else
        let (r', s') := clearFile ops r s path (findings.filter (fun f => f.filePath == path))
        clearEach findings r' s' rest

def fromFilesBy (s : σ) (findings : List Finding) (bookmarks : List String) : Except Fault Report × σ :=
  let free := findings.filter (fun f => !bookmarks.contains f.id)
  let paths := ((free.map Finding.filePath).mergeSort (fun a b => decide (a ≤ b))).eraseReps
  clearEach ops free { skippedBookmarked := findings.length - free.length } s paths

end

def fromFiles (d : Disk) (findings : List Finding) (bookmarks : List String) : Except Fault Report × Disk :=
  fromFilesBy .plain d findings bookmarks

end DebugSweep.Clear
