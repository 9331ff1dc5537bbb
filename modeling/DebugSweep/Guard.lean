import DebugSweep.Engine.Basic

/-! The check of files that are staged for a commit. The version control program is given as a
function from arguments to its answer. -/
namespace DebugSweep.Guard
open Text

structure GitAnswer where
  stdout : String := ""
  stderr : String := ""
  returncode : Int := 0
  deriving DecidableEq, Repr

abbrev Git := List String → GitAnswer

def output (git : Git) (args : List String) : Except Fault String :=
  let answer := git args
  if answer.returncode == 0 then .ok (stripText answer.stdout)
  else
    let reason := stripText answer.stderr
    .error (.git (if reason == "" then "git " ++ String.intercalate " " args ++ " failed" else reason))

structure Verdict where
  mode : String
  blocked : Bool := false
  total : Nat := 0
  perFile : List (String × Nat) := []
  unstaged : List String := []
  deriving DecidableEq, Repr

def Verdict.toValue (v : Verdict) : Value :=
  .record [("mode", .text v.mode), ("blocked", .bool v.blocked), ("total", .ofNat v.total),
    ("per_file", .list (v.perFile.map (fun (path, count) =>
      .record [("path", .text path), ("count", .ofNat count)]))),
    ("unstaged", Value.ofTexts v.unstaged)]

def diffArgs : List String := ["diff", "--cached", "--name-only", "--diff-filter=ACMR"]

def resetArgs (paths : List String) : List String := ["reset", "-q", "HEAD", "--"] ++ paths

def stagedPaths (repo : AbsPath) (report : String) : Except Fault (List AbsPath) :=
  ((reportLines report.toList).map strip |>.filter (fun line => !line.isEmpty)).mapM
    (fun line => Path.resolve repo (String.ofList line))

def counts (staged : List AbsPath) (findings : List Finding) : List (String × Nat) :=
  let paths := (staged.map AbsPath.text).mergeSort (fun a b => decide (a ≤ b))
  paths.eraseReps.map (fun path => (path, findings.countP (fun f => f.filePath == path)))

structure Checked where
  verdict : Except Fault Verdict
  calls : List (List String) := []
  engine : Engine
  source : Source

def unstage (git : Git) (paths : List String) : Except Fault Unit × List (List String) :=
  if paths.isEmpty then (.ok (), [])
  else ((output git (resetArgs paths)).map (fun _ => ()), [resetArgs paths])

def settle (git : Git) (mode : String) (failOnWarn : Bool) (perFile : List (String × Nat))
    (total : Nat) : Except Fault Verdict × List (List String) :=
  if total == 0 then (.ok { mode, perFile }, [])
  else
    let blocked := mode == "strict" || (mode == "warn" && failOnWarn)
    if mode == "strict" then
      let offending := (perFile.filter (fun entry => 0 < entry.2)).map Prod.fst
      let (done, calls) := unstage git offending
      (done.map (fun _ => { mode, blocked, total, perFile, unstaged := offending }), calls)
    else (.ok { mode, blocked, total, perFile }, [])

def check (engine : Engine) (source : Source) (now : String) (repo : AbsPath) (git : Git)
    (mode : Option String) (failOnWarn : Bool) : Checked :=
  let active := match mode with
    | some m => if m == "" then engine.settings.guard.mode else m
    | none => engine.settings.guard.mode
  if !engine.settings.guard.enabled then { verdict := .ok { mode := active }, engine, source }
  else
    let staged := do stagedPaths repo (← output git diffArgs)
    match staged with
    | .error fault => { verdict := .error fault, calls := [diffArgs], engine, source }
    | .ok [] => { verdict := .ok { mode := active }, calls := [diffArgs], engine, source }
    | .ok staged =>
        let (result, engine, source) := engine.scanFiles source now (staged.map AbsPath.text)
        match result with
        | .error fault => { verdict := .error fault, calls := [diffArgs], engine, source }
        | .ok r =>
            let (verdict, calls) :=
              settle git active failOnWarn (counts staged r.findings) r.total
            { verdict, calls := diffArgs :: calls, engine, source }

end DebugSweep.Guard
