import DebugSweep.Proofs.Frame
import DebugSweep.Proofs.Places
import Mathlib.Data.List.Infix

/-! Directories under changes of files. Main statement: writing, moving and removing files and making
directories leaves given directories, with all above them, what they are, and no path gets a name that
cannot be the name of a file. -/
namespace DebugSweep

namespace AbsPath

theorem Proper.above {p q : AbsPath} (proper : p.Proper) (along : q.names <+: p.names) : q.Proper :=
  fun name member => proper name (along.subset member)

theorem Proper.parent {p : AbsPath} (proper : p.Proper) : p.parent.Proper :=
  proper.above (List.dropLast_prefix p.names)

theorem draftProper {p : AbsPath} (proper : p.Proper) : p.draft.Proper := by
  apply proper.parent.child
  have letters : ∀ c ∈ p.name.toList, c ≠ '/' ∧ c ≠ Char.ofNat 0 := by
    intro c member
    cases last : p.names.getLast? with
    | none => simp [name, last] at member
    | some name' =>
      obtain ⟨-, -, -, slash, null⟩ := properParts (proper name' (List.mem_of_getLast? last))
      rw [name, last, Option.getD_some] at member
      constructor
      · rintro rfl
        exact slash member
      · rintro rfl
        exact null member
  have chars : (p.name ++ ".tmp").toList = p.name.toList ++ ['.', 't', 'm', 'p'] := by
    rw [String.toList_append]
    rfl
  have long : ∀ s : String, s.toList.length < 4 → (p.name ++ ".tmp") ≠ s := by
    intro s short same
    have sizes := congrArg (fun s : String => s.toList.length) same
    simp only [chars, List.length_append, List.length_cons, List.length_nil] at sizes
    omega
  have slash : '/' ∉ (p.name ++ ".tmp").toList := by
    rw [chars, List.mem_append]
    rintro (inside | inside)
    · exact (letters _ inside).1 rfl
    · exact absurd inside (by decide)
  have null : Char.ofNat 0 ∉ (p.name ++ ".tmp").toList := by
    rw [chars, List.mem_append]
    rintro (inside | inside)
    · exact (letters _ inside).2 rfl
    · exact absurd inside (by decide)
  simp [properName, long "" (by decide), long "." (by decide), long ".." (by decide), slash, null,
    -String.toList_append]

/-- At one of the given places or below it. -/
structure Within (roots : List AbsPath) (p : AbsPath) : Prop where
  proper : p.Proper
  below : ∃ root ∈ roots, root.names <+: p.names

structure Inside (roots : List AbsPath) (p : AbsPath) : Prop where
  proper : p.Proper
  below : ∃ root ∈ roots, root.names <+: p.names ∧ root ≠ p

theorem Inside.within {roots : List AbsPath} {p : AbsPath} (inside : p.Inside roots) : p.Within roots := by
  obtain ⟨root, member, along, -⟩ := inside.below
  exact ⟨inside.proper, root, member, along⟩

theorem Inside.draft {roots : List AbsPath} {p : AbsPath} (inside : p.Inside roots) :
    p.draft.Within roots := by
  obtain ⟨root, member, along, other⟩ := inside.below
  refine ⟨draftProper inside.proper, root, member, ?_⟩
  have shorter : root.names.length ≤ p.names.length - 1 := by
    have long := along.length_le
    have unequal : root.names.length ≠ p.names.length := fun same =>
      other (congrArg AbsPath.mk (along.eq_of_length same))
    omega
  have parent : root.names <+: p.parent.names :=
    List.prefix_of_prefix_length_le along (List.dropLast_prefix p.names) (by simpa [AbsPath.parent] using shorter)
  exact parent.trans (List.prefix_append _ _)

end AbsPath

namespace Disk

def Directory (d : Disk) (p : AbsPath) : Prop := ∀ q : AbsPath, q.names <+: p.names → d.get? q = some .dir

theorem directoryIff {d : Disk} {p : AbsPath} :
    d.Directory p ↔ ∀ names ∈ p.names.inits, d.isDir ⟨names⟩ = true := by
  constructor
  · intro directory names member
    exact isDirIff.mpr (directory ⟨names⟩ ((List.mem_inits _ _).mp member))
  · intro directory q along
    exact isDirIff.mp (directory q.names ((List.mem_inits _ _).mpr along))

instance (d : Disk) (p : AbsPath) : Decidable (d.Directory p) := decidable_of_iff _ directoryIff.symm

structure Grounded (roots : List AbsPath) (d : Disk) : Prop where
  home : d.here.Proper
  nodes : ∀ n ∈ d.nodes, n.1.Proper
  roots : ∀ root ∈ roots, d.Directory root

section
variable {roots : List AbsPath} {d d' : Disk} {p q : AbsPath}

theorem Grounded.found (grounded : d.Grounded roots) {node : Node} (found : d.get? p = some node) :
    p.Proper := by
  by_cases top : p.names = []
  · intro name member
    simp [top] at member
  · exact grounded.nodes _ (nodeFound found top)

theorem putNodes {node : Node} {n : AbsPath × Node} (member : n ∈ (d.put p node).nodes) :
    n.1 = p ∨ n ∈ d.nodes := by
  unfold put at member
  split at member
  · obtain ⟨m, inside, same⟩ := List.mem_map.mp member
    split at same
    · exact .inl (by rw [← same])
    · exact .inr (same ▸ inside)
  · rcases List.mem_append.mp member with old | new
    · exact .inr old
    · exact .inl (by rw [List.mem_singleton.mp new])

theorem Grounded.apart (grounded : d.Grounded roots) (plain : d.get? p ≠ some .dir) :
    ∀ root ∈ roots, ∀ q : AbsPath, q.names <+: root.names → ¬ p.names <+: q.names :=
  fun root member _ along above => plain (grounded.roots root member p (above.trans along))

theorem Grounded.put (grounded : d.Grounded roots) (proper : p.Proper) (plain : d.get? p ≠ some .dir)
    (node : Node) : (d.put p node).Grounded roots := by
  constructor
  · rw [putHere]
    exact grounded.home
  · intro n member
    rcases putNodes member with here | old
    · exact here ▸ proper
    · exact grounded.nodes n old
  · intro root member q along
    rw [getPut node]
    · exact grounded.roots root member q along
    · rintro rfl
      exact plain (grounded.roots root member q along)

theorem Grounded.serial (grounded : d.Grounded roots) (serial : Nat) :
    ({ d with serial := serial } : Disk).Grounded roots :=
  ⟨grounded.home, grounded.nodes, grounded.roots⟩

theorem Grounded.remove (grounded : d.Grounded roots) (plain : d.get? p ≠ some .dir) :
    (d.remove p).Grounded roots := by
  constructor
  · exact grounded.home
  · intro n member
    exact grounded.nodes n (List.mem_filter.mp member).1
  · intro root member q along
    rw [getRemove (grounded.apart plain root member q along)]
    exact grounded.roots root member q along

theorem Grounded.write {content : ByteArray} (grounded : d.Grounded roots) (proper : p.Proper)
    (written : d.write p content = .ok d') : d'.Grounded roots := by
  obtain ⟨free, rfl⟩ := writeDone written
  have plain : d.get? p ≠ some .dir := by
    rcases free with ⟨nothing, -⟩ | ⟨old, mtime, file⟩ <;> simp [*]
  exact (grounded.put proper plain _).serial _

theorem Grounded.append {content : ByteArray} (grounded : d.Grounded roots) (proper : p.Proper)
    (written : d.append p content = .ok d') : d'.Grounded roots := by
  unfold Disk.append at written
  split at written
  · exact grounded.write proper written
  · exact grounded.write proper written

theorem removedDirectory (found : (d.remove p).get? q = some .dir) : d.get? q = some .dir := by
  by_cases inside : p.names <+: q.names
  · by_cases top : q.names = []
    · simp [get?, top]
    · have kept := (List.mem_filter.mp (nodeFound found top)).2
      exact absurd inside (belowIff.mp kept)
  · rwa [getRemove inside] at found

theorem Grounded.replace (grounded : d.Grounded roots) (proper : q.Proper) (file : d.isLeaf p = true)
    (moved : d.replace p q = .ok d') : d'.Grounded roots := by
  have plain : d.get? p ≠ some .dir := by
    intro directory
    simp [isLeaf, directory] at file
  obtain ⟨node, found, free, rfl⟩ := replaceDone moved
  refine (grounded.remove plain).put proper (fun directory => ?_) node
  refine free ?_ (removedDirectory directory)
  rintro rfl
  exact plain found

theorem Grounded.makeEach {wanted : List AbsPath} (grounded : d.Grounded roots)
    (proper : ∀ q ∈ wanted, q.Proper) :
    (wanted.foldl (fun d q => if d.isDir q then d else d.put q .dir) d).Grounded roots := by
  induction wanted generalizing d with
  | nil => exact grounded
  | cons q rest ih =>
    have others : ∀ q ∈ rest, q.Proper := fun q member => proper q (List.mem_cons_of_mem _ member)
    rw [List.foldl_cons]
    split
    · exact ih grounded others
    · rename_i missing
      refine ih (grounded.put (proper q List.mem_cons_self) (fun directory => ?_) .dir) others
      exact missing (isDirIff.mpr directory)

theorem Grounded.makeDirs (grounded : d.Grounded roots) (proper : p.Proper)
    (made : d.makeDirs p = .ok d') : d'.Grounded roots := by
  rcases makeDirsDone made with ⟨-, rfl⟩ | ⟨-, -, rfl⟩
  · exact grounded
  · apply grounded.makeEach
    intro q member
    rcases List.mem_append.mp member with above | last
    · obtain ⟨n, -, rfl⟩ := List.mem_map.mp above
      exact proper.above (List.take_prefix n p.names)
    · rw [List.mem_singleton.mp last]
      exact proper

theorem Grounded.save (grounded : d.Grounded roots) (proper : p.Proper) (texts : List String) :
    (Store.save d p texts).2.Grounded roots := by
  unfold Store.save Store.saveSteps
  rw [Store.perform]
  split
  · rename_i made madeDirs
    have first := grounded.makeDirs proper.parent madeDirs
    rw [Store.perform]
    split
    · rename_i wrote written
      have second := first.write (AbsPath.draftProper proper) written
      rw [Store.perform]
      split
      · rename_i moved replaced
        exact second.replace proper (by simp [isLeaf, (writtenFile written).2]) replaced
      · exact second
    · exact first
  · exact grounded

end
end Disk
end DebugSweep
