import DebugSweep.Export.Fields
import DebugSweep.Path.Resolve

/-! Findings drawn as a tree of roots, folders, files and statements. -/
namespace DebugSweep.Export

structure Leaf where
  path : List String
  finding : Finding
  deriving DecidableEq, Repr

def locate (here : AbsPath) (roots : List String) (f : Finding) : String × String :=
  let hit := roots.findSome? (fun root =>
    (Path.relativeText? here f.filePath root).map (fun relative =>
      let written := Written.ofText root
      (if written.name == "" then written.text else written.name, relative)))
  hit.getD ("Workspace", shownPath f)

/-- The names of a path. One without names is a name itself. -/
def namesOf (relative : String) : List String :=
  let written := Written.ofText relative
  let names := if written.root == "//" then "//" :: written.names else written.names
  if names.isEmpty then [relative] else names

def leafOf (here : AbsPath) (roots : List String) (f : Finding) : Leaf :=
  let (root, relative) := locate here roots f
  ⟨root :: namesOf relative, f⟩

def sortedNames (names : List String) : List String :=
  (names.mergeSort (fun a b => decide (a ≤ b))).eraseReps

def connector (last : Bool) : String := if last then "└── " else "├── "

def continuation (last : Bool) : String := if last then "    " else "│   "

def leafText (names : List String) (f : Finding) : String :=
  String.intercalate ": " (
    (if names.contains "line" then ["Line " ++ toString f.lineNumber] else []) ++
    (if names.contains "type" then [f.kind.token] else []) ++
    (if names.contains "severity" then [f.severity.name] else []) ++
    (if names.contains "text" then [f.content] else []))

def markLast : List α → List (α × Bool)
  | [] => []
  | [item] => [(item, true)]
  | item :: rest => (item, false) :: markLast rest

def placeNotAfter (a b : Finding) : Bool :=
  a.lineNumber < b.lineNumber || (a.lineNumber == b.lineNumber && a.column ≤ b.column)

def drawFindings (names : List String) (margin : String) (findings : List Finding) : List String :=
  (markLast (findings.mergeSort placeNotAfter)).map
    (fun (f, last) => margin ++ connector last ++ leafText names f)

def behind (name : String) (leaves : List Leaf) : List Leaf :=
  leaves.filterMap (fun leaf =>
    match leaf.path with
    | first :: rest => if first == name then some ⟨rest, leaf.finding⟩ else none
    | [] => none)

def isFolderPath : List String → Bool
  | _ :: _ :: _ => true
  | _ => false

def draw (names : List String) : Nat → String → List Leaf → List String
  | 0, _, _ => []
  | depth + 1, margin, leaves =>
      let inFolders := leaves.filter (fun leaf => isFolderPath leaf.path)
      let inFiles := leaves.filter (fun leaf => !isFolderPath leaf.path)
      let firstNames := fun (ls : List Leaf) => sortedNames (ls.filterMap (fun leaf => leaf.path.head?))
      let children := (firstNames inFolders).map (·, true) ++ (firstNames inFiles).map (·, false)
      (markLast children).flatMap (fun ((name, isFolder), last) =>
        let inner := margin ++ continuation last
        (margin ++ connector last ++ name) ::
          (if isFolder then draw names depth inner (behind name inFolders)
           else drawFindings names inner ((behind name inFiles).map Leaf.finding)))

def maxDepth (leaves : List Leaf) : Nat :=
  leaves.foldl (fun depth leaf => max depth leaf.path.length) 0

def textTree (here : AbsPath) (roots names : List String) (findings : List Finding) : String :=
  let leaves := findings.map (leafOf here roots)
  String.intercalate "\n" (draw names (maxDepth leaves) "" leaves)

def fencedTree (here : AbsPath) (roots names : List String) (findings : List Finding) : String :=
  let tree := textTree here roots names findings
  if tree == "" then "```text\n```" else "```text\n" ++ tree ++ "\n```"

def formats : List String := ["json", "csv", "md", "txt"]

def render (here : AbsPath) (roots : List String) (format : String)
    (fields : Option (List String)) (findings : List Finding) : Except Fault String :=
  let names := chosen fields
  if format == "json" then .ok (json names findings)
  else if format == "csv" then .ok (csv names findings)
  else if format == "md" then .ok (fencedTree here roots names findings)
  else if format == "txt" then .ok (textTree here roots names findings)
  else .error (.invalid (.exportFormat format))

end DebugSweep.Export
