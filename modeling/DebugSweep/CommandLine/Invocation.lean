import DebugSweep.CommandLine.Arguments
import DebugSweep.Export.Tree
import DebugSweep.Number.Whole
import DebugSweep.Settings.Basic

/-! What a command line asks for. Options of every command come first, then the command's name,
then its own options and paths. -/
namespace DebugSweep.CommandLine

inductive Command where
  | serve
  | scan (paths : List String) (format : String) (fields : Option String)
  | checkStaged (mode : Option String) (failOnWarn : Bool)
  | watch
  deriving DecidableEq, Repr

structure Choices where
  root : String := "."
  dataDir : Option String := none
  maxFileBytes : Option Int := none
  batchSize : Option Int := none
  format : String := "json"
  fields : Option String := none
  mode : Option String := none
  failOnWarn : Bool := false
  deriving DecidableEq, Repr

structure Invocation where
  root : String
  dataDir : Option String
  maxFileBytes : Option Int
  batchSize : Option Int
  command : Command
  deriving DecidableEq, Repr

def sharedOptions : Options :=
  [("--help", .help), ("--root", .root), ("--data-dir", .dataDir),
   ("--max-file-bytes", .maxFileBytes), ("--batch-size", .batchSize), ("--log-level", .logLevel)]

def logLevels : List String := ["debug", "info", "warning", "error"]

inductive CommandName where
  | serve
  | scan
  | checkStaged
  | watch
  deriving DecidableEq, Repr

def CommandName.ofText? (text : String) : Option CommandName :=
  match text with
  | "serve" => some .serve
  | "scan" => some .scan
  | "check-staged" => some .checkStaged
  | "watch" => some .watch
  | _ => none

def CommandName.options : CommandName → Options
  | .scan => [("--help", .help), ("--format", .format), ("--fields", .fields)]
  | .checkStaged => [("--help", .help), ("--mode", .mode), ("--fail-on-warn", .failOnWarn)]
  | .serve | .watch => [("--help", .help)]

def CommandName.takesPaths : CommandName → Bool
  | .scan => true
  | _ => false

def oneOf (known : List String) (text : String) : Except Refusal String :=
  if known.contains text then .ok text else .error .misuse

def whole (text : String) : Except Refusal Int :=
  match Whole.read? text.toList with
  | some n => .ok n
  | none => .error .misuse

namespace Choices

def set (c : Choices) (opt : Opt) (value : String) : Except Refusal Choices :=
  match opt with
  | .root => .ok { c with root := value }
  | .dataDir => .ok { c with dataDir := some value }
  | .maxFileBytes => do return { c with maxFileBytes := some (← whole value) }
  | .batchSize => do return { c with batchSize := some (← whole value) }
  | .logLevel => do let _ ← oneOf logLevels value; return c
  | .format => do return { c with format := ← oneOf Export.formats value }
  | .fields => .ok { c with fields := some value }
  | .mode => do return { c with mode := some (← oneOf Settings.guardModes value) }
  | .help | .failOnWarn => .error .misuse

def raise (c : Choices) (opt : Opt) : Except Refusal Choices :=
  match opt with
  | .help => .error .help
  | .failOnWarn => .ok { c with failOnWarn := true }
  | _ => .error .misuse

def take (c : Choices) (opt : Opt) (value : Option String) (rest : List Argument) :
    Except Refusal (Choices × List Argument) := do
  match opt.isFlag, value, rest with
  | true, none, _ => return (← c.raise opt, rest)
  | false, some value, _ => return (← c.set opt value, rest)
  | false, none, .plain value :: rest' => return (← c.set opt value, rest')
  | _, _, _ => throw .misuse

end Choices

/-- Letters may follow the one for advice, but neither a value nor a dash. -/
def adviceRefusal : List Char → Refusal
  | '=' :: _ | '-' :: _ => .misuse
  | 'h' :: rest => adviceRefusal rest
  | _ => .help

structure Progress where
  choices : Choices
  paths : Option (List String) := none
  stray : Bool := false

def Progress.takePaths (p : Progress) (takesPaths : Bool) (run : List Argument) : Progress :=
  if takesPaths && p.paths.isNone then
    { p with paths := some ((run.map Argument.text).erase "--") }
  else { p with stray := true }

def readTail (name : CommandName) (p : Progress) : Nat → List Argument → Except Refusal Progress
  | 0, _ => .ok p
  | _ + 1, [] => .ok p
  | fuel + 1, arg :: rest => do
      match arg with
      | .option opt value =>
          let (choices, rest') ← p.choices.take opt value rest
          readTail name { p with choices } fuel rest'
      | .advice behind => throw (adviceRefusal behind)
      | .unknown _ => readTail name { p with stray := true } fuel rest
      | .plain _ | .divider =>
          let run := (arg :: rest).takeWhile Argument.isPositional
          readTail name (p.takePaths name.takesPaths run) fuel ((arg :: rest).drop run.length)

def Progress.command (p : Progress) : CommandName → Command
  | .serve => .serve
  | .scan => .scan (p.paths.getD []) p.choices.format p.choices.fields
  | .checkStaged => .checkStaged p.choices.mode p.choices.failOnWarn
  | .watch => .watch

def invocation (c : Choices) (command : Command) : Invocation :=
  { root := c.root, dataDir := c.dataDir, maxFileBytes := c.maxFileBytes, batchSize := c.batchSize
    command }

def readCommand (c : Choices) (stray : Bool) (name : String) (tail : List String) :
    Except Refusal Invocation := do
  match CommandName.ofText? name with
  | none => throw .misuse
  | some name =>
      let args ← arguments name.options tail
      let p ← readTail name { choices := c, stray } args.length args
      if p.stray then throw .misuse else return invocation c (p.command name)

def readHead (c : Choices) (stray : Bool) (argv : List String) :
    Nat → List Argument → Except Refusal Invocation
  | 0, _ | _ + 1, [] => if stray then .error .misuse else .ok (invocation c .serve)
  | fuel + 1, arg :: rest => do
      match arg with
      | .option opt value =>
          let (c', rest') ← c.take opt value rest
          readHead c' stray (argv.drop (argv.length - rest'.length)) fuel rest'
      | .advice behind => throw (adviceRefusal behind)
      | .unknown _ => readHead c true (argv.drop 1) fuel rest
      | .divider => throw .misuse
      | .plain name => readCommand c stray name (argv.drop 1)

def Invocation.read (argv : List String) : Except Refusal Invocation := do
  let args ← arguments sharedOptions argv
  readHead {} false argv args.length args

end DebugSweep.CommandLine
