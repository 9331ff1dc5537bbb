/-! Kinds of debug statements and how urgent it is to remove them. -/
namespace DebugSweep.Lexis

inductive Kind where
  | varDump
  | printR
  | echo
  | print
  | varExport
  | printf
  | die
  | exit
  | errorLog
  | triggerError
  | userError
  | debugBacktrace
  | dump
  | dd
  | xdebugVarDump
  | xdebugDebugZval
  | xdebugBreak
  deriving DecidableEq, Repr

namespace Kind

def all : List Kind :=
  [.varDump, .printR, .echo, .print, .varExport, .printf, .die, .exit, .errorLog, .triggerError,
   .userError, .debugBacktrace, .dump, .dd, .xdebugVarDump, .xdebugDebugZval, .xdebugBreak]

def token : Kind → String
  | .varDump => "var_dump"
  | .printR => "print_r"
  | .echo => "echo"
  | .print => "print"
  | .varExport => "var_export"
  | .printf => "printf"
  | .die => "die"
  | .exit => "exit"
  | .errorLog => "error_log"
  | .triggerError => "trigger_error"
  | .userError => "user_error"
  | .debugBacktrace => "debug_backtrace"
  | .dump => "dump"
  | .dd => "dd"
  | .xdebugVarDump => "xdebug_var_dump"
  | .xdebugDebugZval => "xdebug_debug_zval"
  | .xdebugBreak => "xdebug_break"

def ofName? (name : String) : Option Kind := all.find? (fun kind => kind.token == name)

inductive Follow where
  | call
  | blank
  | boundary
  deriving DecidableEq, Repr

def follow : Kind → Follow
  | .echo | .print => .blank
  | .die | .exit | .xdebugBreak => .boundary
  | _ => .call

end Kind

inductive Severity where
  | info
  | warning
  | error
  deriving DecidableEq, Repr

namespace Severity

def name : Severity → String
  | .info => "info"
  | .warning => "warning"
  | .error => "error"

def ofName? (name : String) : Option Severity :=
  [Severity.info, .warning, .error].find? (fun severity => severity.name == name)

end Severity

def Kind.severity : Kind → Severity
  | .die | .exit | .dd => .error
  | .errorLog | .triggerError | .userError => .warning
  | _ => .info

end DebugSweep.Lexis
