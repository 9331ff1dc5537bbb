import DebugSweep.Engine.Basic

/-! Properties of an engine and its source that scans keep. Main statement: what scanning one file
keeps, whether or not a scan is marked as running and whatever its result, is kept by scans of given
files and of the workspace. -/
namespace DebugSweep.Engine

structure Kept (holds : Engine → Source → Prop) : Prop where
  file : ∀ e source p, holds e source → holds (e.scanFile source p).2.1 (e.scanFile source p).2.2
  marks : ∀ e source scanning last, holds e source →
    holds { e with scanning := scanning, last := last } source

section
variable {holds : Engine → Source → Prop} {e : Engine} {source : Source}

theorem Kept.batch (kept : Kept holds) (done : List Outcome) (paths : List AbsPath)
    (start : holds e source) :
    holds (e.scanBatch source done paths).2.1 (e.scanBatch source done paths).2.2 := by
  induction paths generalizing e source done with
  | nil => exact start
  | cons p rest ih => exact ih _ (kept.file e source p start)

theorem Kept.batches (kept : Kept holds) (now : String) (tally : Tally) (fuel : Nat)
    (paths : List AbsPath) (start : holds e source) :
    holds (e.scanBatches source now tally fuel paths).2.1
      (e.scanBatches source now tally fuel paths).2.2 := by
  induction fuel generalizing e source tally paths with
  | zero => exact start
  | succ fuel ih =>
    cases paths with
    | nil => exact start
    | cons p rest =>
      have next := kept.batch [] ((p :: rest).take e.settings.limits.batchSize) start
      rw [scanBatches]
      dsimp only
      split
      · exact next
      · exact ih _ _ next

theorem Kept.paths (kept : Kept holds) (now : String) (paths : List AbsPath) (prior : List ScanError)
    (start : holds e source) :
    holds (e.scanPaths source now paths prior).2.1 (e.scanPaths source now paths prior).2.2 :=
  kept.batches now _ _ paths start

theorem Kept.settle (kept : Kept holds) (result : Except Fault ScanResult) (start : holds e source) :
    holds (e.settle result) source := by
  cases result with
  | ok r => exact kept.marks e source false (some r) start
  | error fault => exact kept.marks e source false e.last start

theorem Kept.scanFiles (kept : Kept holds) (now : String) (paths : List String)
    (start : holds e source) :
    holds (e.scanFiles source now paths).2.1 (e.scanFiles source now paths).2.2 := by
  have running := kept.marks e source true e.last start
  unfold Engine.scanFiles scanFilesBy
  split
  · exact start
  · dsimp only
    apply kept.settle
    split
    · exact running
    · exact kept.paths now _ _ running

theorem Kept.scanWorkspace (kept : Kept holds) (now : String) (start : holds e source) :
    holds (e.scanWorkspace source now).2.1 (e.scanWorkspace source now).2.2 := by
  have running := kept.marks e source true e.last start
  unfold Engine.scanWorkspace
  split
  · exact start
  · dsimp only
    apply kept.settle
    split
    · exact running
    · exact kept.paths now _ _ running

end

theorem diskKept (d : Disk) : Kept (fun _ source => source.disk = d) := by
  constructor
  · intro e source p same
    unfold scanFile
    split
    · exact same
    · exact same
  · intro e source scanning last same
    exact same

end DebugSweep.Engine
