import DebugSweep.Text.Digit

/-! Arguments of a command line, told apart before any of them is used: options, which may be
shortened as long as they stay unique, and plain arguments. -/
namespace DebugSweep.CommandLine
open Text

inductive Refusal where
  | help
  | misuse
  deriving DecidableEq, Repr

inductive Opt where
  | help
  | root
  | dataDir
  | maxFileBytes
  | batchSize
  | logLevel
  | format
  | fields
  | mode
  | failOnWarn
  deriving DecidableEq, Repr

def Opt.isFlag : Opt → Bool
  | .help | .failOnWarn => true
  | _ => false

abbrev Options := List (String × Opt)

inductive Argument where
  | plain (text : String)
  /-- Two dashes: no option comes after them. -/
  | divider
  | option (opt : Opt) (value : Option String)
  | advice (behind : List Char)
  | unknown (text : String)
  deriving DecidableEq, Repr

def Argument.isPositional : Argument → Bool
  | .plain _ | .divider => true
  | _ => false

def Argument.text : Argument → String
  | .plain text | .unknown text => text
  | _ => "--"

/-- Digits, maybe with a point before the last of them. -/
def isDecimal (text : List Char) : Bool :=
  let whole := text.takeWhile isDecimalDigit
  match text.drop whole.length with
  | [] => !whole.isEmpty
  | '.' :: part => !part.isEmpty && part.all isDecimalDigit
  | _ => false

/-- A negative number is a plain argument; a line feed may end it. -/
def isNegative : List Char → Bool
  | '-' :: rest => isDecimal rest || (rest.getLast? == some '\n' && isDecimal rest.dropLast)
  | _ => false

def unnamed (arg : String) : Argument :=
  let chars := arg.toList
  if isNegative chars || chars.contains ' ' then .plain arg else .unknown arg

def splitValue (chars : List Char) : List Char × Option String :=
  let name := chars.takeWhile (· != '=')
  match chars.drop name.length with
  | _ :: value => (name, some (String.ofList value))
  | [] => (name, none)

/-- An argument that starts with two dashes. A full name comes before all that it begins. -/
def long (options : Options) (arg : String) : Except Refusal Argument :=
  let (name, value) := splitValue arg.toList
  match options.find? (fun o => o.1.toList == name) with
  | some (_, opt) => .ok (.option opt value)
  | none =>
      match options.filter (fun o => name.isPrefixOf o.1.toList) with
      | [] => .ok (unnamed arg)
      | [(_, opt)] => .ok (.option opt value)
      | _ => .error .misuse

def argument (options : Options) (arg : String) : Except Refusal Argument :=
  match arg.toList with
  | ['-', '-'] => .ok .divider
  | '-' :: '-' :: _ => long options arg
  | '-' :: 'h' :: behind => .ok (.advice behind)
  | '-' :: _ :: _ => .ok (unnamed arg)
  | _ => .ok (.plain arg)

def arguments (options : Options) : List String → Except Refusal (List Argument)
  | [] => .ok []
  | arg :: rest => do
      match ← argument options arg with
      | .divider => return .divider :: rest.map .plain
      | found => return found :: (← arguments options rest)

end DebugSweep.CommandLine
