/-! Paths as they are written, and the absolute places they lead to when no link is followed. -/
namespace DebugSweep

/-- An absolute path without empty, `.` or `..` names. -/
structure AbsPath where
  names : List String
  deriving DecidableEq, Repr, Inhabited

namespace AbsPath

def text (p : AbsPath) : String := "/" ++ String.intercalate "/" p.names

def child (p : AbsPath) (name : String) : AbsPath := ⟨p.names ++ [name]⟩

def parent (p : AbsPath) : AbsPath := ⟨p.names.dropLast⟩

def name (p : AbsPath) : String := p.names.getLast?.getD ""

def draft (p : AbsPath) : AbsPath := p.parent.child (p.name ++ ".tmp")

def below? (root : AbsPath) (p : AbsPath) : Option (List String) :=
  if root.names.isPrefixOf p.names then some (p.names.drop root.names.length) else none

def notAfter (a b : AbsPath) : Bool := decide (a.text ≤ b.text)

end AbsPath

/-- A path as written: one or two slashes or none in front, then its names, of which empty ones
and `.` are left out. -/
structure Written where
  root : String
  names : List String
  deriving DecidableEq, Repr

namespace Written

/-- Two slashes in front differ from one, three or more do not. -/
def rootOf : List Char → String
  | '/' :: '/' :: '/' :: _ => "/"
  | '/' :: '/' :: _ => "//"
  | '/' :: _ => "/"
  | _ => ""

def ofText (s : String) : Written :=
  let chars := s.toList
  ⟨rootOf chars,
    ((chars.splitOn '/').map String.ofList).filter (fun name => name != "" && name != ".")⟩

def text (w : Written) : String :=
  let all := w.root ++ String.intercalate "/" w.names
  if all == "" then "." else all

def name (w : Written) : String := w.names.getLast?.getD ""

/-- The part of a name from its last dot on, if something stands on both sides of the dot. -/
def suffixOf (name : List Char) : List Char :=
  let tail := name.reverse.takeWhile (· != '.')
  let start := name.length - tail.length
  if 1 < start && !tail.isEmpty then name.drop (start - 1) else []

def suffix (w : Written) : String := String.ofList (suffixOf w.name.toList)

/-- Follows one name from a place whose names are given backwards. -/
def enter (place : List String) (name : String) : List String :=
  if name == ".." then place.drop 1 else name :: place

def placeFrom (here : AbsPath) (w : Written) : AbsPath :=
  let start := if w.root == "" then here.names.reverse else []
  ⟨(w.names.foldl enter start).reverse⟩

def hasNull (w : Written) : Bool := w.names.any (fun name => name.toList.contains (Char.ofNat 0))

end Written
end DebugSweep
