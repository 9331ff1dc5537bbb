import DebugSweep.Path.Resolve
import DebugSweep.Text.Case

/-! Exclude patterns. Two stars stand for any text within a line, one star for any text without
a slash, a question mark for one character other than a slash; letters match in either case. -/
namespace DebugSweep.Glob
open Text

inductive Piece where
  | anything
  | name
  | one
  | letter (c : Char)
  deriving DecidableEq, Repr

/-- Reads a pattern from left to right, two stars before one. -/
def pieces : List Char → List Piece
  | [] => []
  | '*' :: '*' :: rest => .anything :: pieces rest
  | c :: rest =>
      (if c == '*' then .name else if c == '?' then .one else .letter c) :: pieces rest

def afterRun (allowed : Char → Bool) (next : List Char → Bool) : List Char → Bool
  | [] => next []
  | c :: rest => next (c :: rest) || (allowed c && afterRun allowed next rest)

/-- Whether the pieces cover a text to its end, where one last line feed may be left over. -/
def covers : List Piece → List Char → Bool
  | [], text => text == [] || text == ['\n']
  | .anything :: rest, text => afterRun (· != '\n') (covers rest) text
  | .name :: rest, text => afterRun (· != '/') (covers rest) text
  | .one :: rest, text =>
      match text with
      | [] => false
      | c :: text' => c != '/' && covers rest text'
  | .letter p :: rest, text =>
      match text with
      | [] => false
      | c :: text' => sameLetter p c && covers rest text'

structure Rule where
  pattern : String
  pieces : List Piece
  deriving DecidableEq, Repr

def Rule.ofPattern (pattern : String) : Rule :=
  ⟨pattern, Glob.pieces (Path.forwardSlashes pattern).toList⟩

def Rule.matches (rule : Rule) (candidate : String) : Bool := covers rule.pieces candidate.toList

def rules (patterns : List String) : List Rule :=
  (patterns.filter (fun pattern => !allBlank pattern.toList)).map Rule.ofPattern

/-- The forms in which a path is compared: as written, and below each root with and without a
slash in front. A directory has a slash at its end. -/
def candidates (here : AbsPath) (roots : List String) (path : String) (isDir : Bool) :
    List String :=
  let ending := if isDir then "/" else ""
  let plain := String.ofList (dropEnd '/' (Path.forwardSlashes path).toList)
  (plain ++ ending) :: roots.flatMap (fun root =>
    match Path.relativeText? here path root with
    | some relative => [relative ++ ending, "/" ++ relative ++ ending]
    | none => [])

def excluded (here : AbsPath) (rules : List Rule) (roots : List String) (path : String)
    (isDir : Bool) : Bool :=
  let forms := candidates here roots path isDir
  rules.any (fun rule => forms.any rule.matches)

def allowedExtension (extensions : List String) (path : String) : Bool :=
  let suffix := lower (Written.ofText path).suffix
  extensions.any (fun extension => lower extension == suffix)

/-- Directories of these names, in either case, are never entered. -/
def skippedDirectory (skipNames : List String) (name : String) : Bool :=
  let wanted := lower name
  skipNames.any (fun skip => lower skip == wanted)

end DebugSweep.Glob
