import DebugSweep.Fault
import DebugSweep.Path.Written
import DebugSweep.Text.Blank

/-! Resolution of paths: against the current directory, relative to a root, and of paths from
requests against the workspace roots. -/
namespace DebugSweep.Path
open Text

def resolve (here : AbsPath) (s : String) : Except Fault AbsPath :=
  let w := Written.ofText s
  if w.hasNull then .error (.invalid .nullByte) else .ok (w.placeFrom here)

def namesText (names : List String) : String :=
  if names.isEmpty then "." else String.intercalate "/" names

def relative? (root place : AbsPath) : Option String := (root.below? place).map namesText

/-- As `relative?` for paths as written; one that cannot be resolved is below no root. -/
def relativeText? (here : AbsPath) (path root : String) : Option String :=
  match resolve here path, resolve here root with
  | .ok place, .ok base => relative? base place
  | _, _ => none

def forwardSlashes (s : String) : String :=
  String.ofList (s.toList.map (fun c => if c == '\\' then '/' else c))

def hasDrive : List Char → Bool
  | d :: ':' :: '/' :: _ => d.isAlpha
  | _ => false

/-- The place below a root that a request's path names. Relative paths start at the first root
and may not climb; a path with a drive letter is taken as it stands. -/
def inWorkspace (here : AbsPath) (roots : List AbsPath) (candidate : String) :
    Except Fault AbsPath := do
  match roots with
  | [] => throw (.blocked .noRoot)
  | first :: _ =>
      let wanted := forwardSlashes (stripText candidate)
      if wanted == "" then throw (.blocked .empty)
      let place ←
        if wanted.startsWith "/" || hasDrive wanted.toList then resolve here wanted
        else if (Written.ofText wanted).names.contains ".." then throw (.blocked .traversal)
        else resolve first wanted
      if roots.any (fun root => (root.below? place).isSome) then return place
      else throw (.blocked .outside)

/-- The glob that excludes a place: its path below the first root that it is strictly below. -/
def excludePattern (roots : List AbsPath) (place : AbsPath) (isDir : Bool) : Option String :=
  roots.findSome? (fun root =>
    match root.below? place with
    | some (name :: names) =>
        some (namesText (name :: names) ++ (if isDir then "/**" else ""))
    | _ => none)

end DebugSweep.Path
