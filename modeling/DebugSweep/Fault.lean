import DebugSweep.Text.Quoted

/-! What can go wrong, by cause. The wording of every cause is in `message`. -/
namespace DebugSweep

structure OsFailure where
  errno : Nat
  reason : String
  path : String
  target : Option String := none
  deriving DecidableEq, Repr

namespace OsFailure

def noEntry (path : String) : OsFailure := ⟨2, "No such file or directory", path, none⟩

def noDevice (path : String) : OsFailure := ⟨6, "No such device or address", path, none⟩

def alreadyThere (path : String) : OsFailure := ⟨17, "File exists", path, none⟩

def notDirectory (path : String) : OsFailure := ⟨20, "Not a directory", path, none⟩

def isDirectory (path : String) : OsFailure := ⟨21, "Is a directory", path, none⟩

def message (f : OsFailure) : String :=
  let place := Text.quoted f.path ++ (match f.target with
    | some target => " -> " ++ Text.quoted target
    | none => "")
  "[Errno " ++ toString f.errno ++ "] " ++ f.reason ++ ": " ++ place

end OsFailure

inductive Blocked where
  | noRoot
  | empty
  | traversal
  | outside
  deriving DecidableEq, Repr

namespace Blocked

def message : Blocked → String
  | .noRoot => "No workspace root is configured."
  | .empty => "Path is empty."
  | .traversal => "Path traversal is blocked."
  | .outside => "Path is outside the workspace roots."

def hint : Blocked → String
  | .noRoot => ""
  | .empty => "Provide a workspace-relative path such as 'app/index.php'."
  | .traversal => "Remove '..' segments and use a workspace-relative path."
  | .outside => "Use a path located under a configured scan root."

end Blocked

inductive Invalid where
  | selectionField (name : String)
  | selectionOrder
  | selectionShape
  | selectionEnds
  | selectionPastEnd (line count : Nat)
  | sectionShape (key : String)
  | notList (field : String)
  | notTexts (field : String)
  | noRoots
  | notPositiveInt (field : String)
  | aboveCap (field : String) (cap : Int)
  | notPositiveNumber (field : String)
  | notBool (field : String)
  | notChoice (field : String) (choices : List String)
  | toolKnown (name : String)
  | exportFormat (format : String)
  | notBelowRoot (path : String)
  | storeShape (path what : String)
  | nullByte
  | longNumber (digits : Nat)
  deriving DecidableEq, Repr

def Invalid.message : Invalid → String
  | .selectionField name => "Selection field '" ++ name ++ "' must be a non-negative integer."
  | .selectionOrder => "Selection end must not precede its start."
  | .selectionShape => "selection must be an object."
  | .selectionEnds => "selection.start and selection.end must be objects."
  | .selectionPastEnd line count =>
      "Selection ends on line " ++ toString line ++ ", document has " ++ toString count ++ " lines."
  | .sectionShape key => "Config section '" ++ key ++ "' must be a table."
  | .notList field => "Config field '" ++ field ++ "' must be a list of strings."
  | .notTexts field => "Config field '" ++ field ++ "' must contain only strings."
  | .noRoots => "Config field 'scan.roots' must not be empty."
  | .notPositiveInt field => "Config field '" ++ field ++ "' must be a positive integer."
  | .aboveCap field cap => "Config field '" ++ field ++ "' must be <= " ++ toString cap ++ "."
  | .notPositiveNumber field => "Config field '" ++ field ++ "' must be a positive number."
  | .notBool field => "Config field '" ++ field ++ "' must be a boolean."
  | .notChoice field choices =>
      "Config field '" ++ field ++ "' must be one of: " ++ String.intercalate ", " choices ++ "."
  | .toolKnown name => "Tool already registered: " ++ name
  | .exportFormat format => "Unsupported export format: " ++ Text.quoted format ++ "."
  | .notBelowRoot path => "Cannot exclude " ++ path ++ ": it is not below a scan root."
  | .storeShape path what => path ++ " must contain a JSON list of " ++ what ++ "."
  | .nullByte => "embedded null byte"
  | .longNumber digits =>
      "Exceeds the limit (4300 digits) for integer string conversion: value has " ++
        toString digits ++ " digits; use sys.set_int_max_str_digits() to increase the limit"

inductive Format where
  | json
  | toml
  | utf8
  deriving DecidableEq, Repr

inductive Fault where
  | fileTooLarge (size limit : Int)
  | unreadable (reason : String)
  | unlistable (reason : String)
  | unbalanced (line : Option Nat)
  | noSelection
  | ambiguousSelection
  | insideString
  | notInsertable
  | blocked (why : Blocked)
  | git (text : String)
  | dispatch (code text : String)
  | os (failure : OsFailure)
  | invalid (cause : Invalid)
  | undecodable (format : Format)
  | lineOutside (line : Int)
  | indexOutside (kind : String)
  | floatRange
  | crash (text : String)
  deriving DecidableEq, Repr

namespace Fault

def message : Fault → String
  | .fileTooLarge size limit =>
      "File too large (" ++ toString size ++ " bytes > " ++ toString limit ++ " bytes); skipped."
  | .unreadable reason => "Unable to read file: " ++ reason
  | .unlistable reason => "Unable to list directory: " ++ reason
  | .unbalanced (some line) => "Unmatched '\x7d' on line " ++ toString line ++ "."
  | .unbalanced none => "Unmatched braces detected; check that every block is closed."
  | .noSelection => "Nothing is selected."
  | .ambiguousSelection => "Selection looks like part of a call expression."
  | .insideString => "Selection is inside a string literal; skipped."
  | .notInsertable => "Selection is not a variable or callable expression."
  | .blocked why => why.message
  | .git text => text
  | .dispatch _ text => text
  | .os failure => failure.message
  | .invalid cause => cause.message
  | .undecodable _ => ""
  | .lineOutside line => "Line " ++ toString line ++ " is outside the document."
  | .indexOutside kind => kind ++ " index out of range"
  | .floatRange => "int too large to convert to float"
  | .crash text => text

def code? : Fault → Option String
  | .fileTooLarge .. => some "FILE_TOO_LARGE"
  | .unreadable _ => some "READ_ERROR"
  | .unlistable _ => some "DIRECTORY_UNREADABLE"
  | .unbalanced _ => some "UNBALANCED_BRACES"
  | .noSelection => some "NO_SELECTION"
  | .ambiguousSelection => some "AMBIGUOUS_SELECTION"
  | .insideString => some "IN_STRING_LITERAL"
  | .notInsertable => some "NOT_INSERTABLE"
  | .blocked _ => some "PATH_BLOCKED"
  | .git _ => some "GIT_ERROR"
  | _ => none

def hint : Fault → String
  | .fileTooLarge .. => "Raise limits.max_file_bytes or exclude the file."
  | .unbalanced _ => "Fix the block structure before inserting."
  | .noSelection => "Select a variable or call expression first."
  | .ambiguousSelection => "Select the complete call, including its parentheses."
  | .insideString => "Select an expression outside of quotes."
  | .notInsertable => "Select something like $obj->items[0] or Class::method()."
  | .blocked why => why.hint
  | _ => ""

def isInvalid : Fault → Bool
  | .invalid _ | .undecodable _ => true
  | _ => false

end Fault
end DebugSweep
