/-! The lexical role of every character of a line. A machine with one character of lookahead
reads the line; only an open block comment is carried into the next line. -/
namespace DebugSweep.Lexis

inductive CharClass where
  | code
  | string
  | quote
  | lineComment
  | blockComment
  deriving DecidableEq, Repr

structure LineState where
  inBlockComment : Bool := false
  inString : Bool := false
  delimiter : Option String := none
  deriving DecidableEq, Repr

inductive Mode where
  | code
  /-- Inside a string, which the closer ends unless it is escaped. -/
  | literal (closer : Option Char) (escaped : Bool)
  | comment (next : Mode)
  | opening
  | closing (next : Mode)
  | rest
  deriving DecidableEq, Repr

/-- A delimiter of one character closes its string; any other never does. -/
def closerOf (delimiter : String) : Option Char :=
  match delimiter.toList with
  | [c] => some c
  | _ => none

def LineState.mode (state : LineState) : Mode :=
  let inner := match state.inString, state.delimiter with
    | true, some delimiter => .literal (closerOf delimiter) false
    | _, _ => .code
  if state.inBlockComment then .comment inner else inner

def isQuote (c : Char) : Bool := c == '\'' || c == '"'

def Mode.step (mode : Mode) (c : Char) (next : Option Char) : CharClass × Mode :=
  match mode with
  | .code =>
      if isQuote c then (.quote, .literal (some c) false)
      else if c == '#' || (c == '/' && next == some '/') then (.lineComment, .rest)
      else if c == '/' && next == some '*' then (.blockComment, .opening)
      else (.code, .code)
  | .literal closer escaped =>
      if escaped then (.string, .literal closer false)
      else if c == '\\' then (.string, .literal closer true)
      else if closer == some c then (.quote, .code)
      else (.string, .literal closer false)
  | .comment after =>
      if c == '*' && next == some '/' then (.blockComment, .closing after)
      else (.blockComment, .comment after)
  | .opening => (.blockComment, .comment .code)
  | .closing after => (.blockComment, after)
  | .rest => (.lineComment, .rest)

/-- Strings end with their line; a block comment goes on. -/
def Mode.exit : Mode → LineState
  | .comment _ => { inBlockComment := true }
  | _ => {}

structure Classified where
  classes : List CharClass
  exit : LineState
  deriving DecidableEq, Repr

def run (mode : Mode) (done : List CharClass) : List Char → List CharClass × Mode
  | [] => (done.reverse, mode)
  | c :: rest =>
      let (cls, after) := mode.step c rest.head?
      run after (cls :: done) rest

def classify (line : List Char) (state : LineState) : Classified :=
  let (classes, mode) := run state.mode [] line
  ⟨classes, mode.exit⟩

end DebugSweep.Lexis
