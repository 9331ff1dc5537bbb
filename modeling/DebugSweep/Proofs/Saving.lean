import DebugSweep.Proofs.Convergence
import DebugSweep.Proofs.Directories
import DebugSweep.Proofs.QuietLists

/-! Lists saved beside other files. Main statements: saving a list into a directory that is there either
succeeds and the list is loaded, or fails and leaves the file as it was; other files of the directory
stay as they are; and making a directory changes nothing in it. -/
namespace DebugSweep

namespace Disk
variable {d d' : Disk} {p q : AbsPath}

theorem Directory.sheltered (directory : d.Directory p) (name : String) : d.Sheltered (p.child name) := by
  intro q along other
  rcases List.prefix_concat_iff.mp along with whole | above
  · exact absurd (congrArg AbsPath.mk whole) other
  · exact directory q above

theorem Directory.made (directory : d.Directory p) (name : String) : d.makeDirs (p.child name).parent = .ok d := by
  have parent : (p.child name).parent = p := by simp [AbsPath.child, AbsPath.parent]
  unfold makeDirs
  rw [parent, directory p (List.prefix_refl _)]

theorem makeOne (d : Disk) (p : AbsPath) : (if d.isDir p then d else d.put p .dir).get? p = some .dir ∧
    ∀ q, q ≠ p → (if d.isDir p then d else d.put p .dir).get? q = d.get? q := by
  split
  · rename_i made
    exact ⟨isDirIff.mp made, fun q other => rfl⟩
  · refine ⟨?_, fun q other => getPut .dir other⟩
    by_cases top : p.names = []
    · simp [get?, top]
    · exact getPutSame .dir top

theorem makeEachDirectory {wanted : List AbsPath} (known : q ∈ wanted ∨ d.get? q = some .dir) :
    (wanted.foldl (fun d q => if d.isDir q then d else d.put q .dir) d).get? q = some .dir := by
  induction wanted generalizing d with
  | nil => simpa using known
  | cons r rest ih =>
    obtain ⟨made, others⟩ := makeOne d r
    apply ih
    by_cases here : q = r
    · subst here
      exact .inr made
    · rcases known with member | there
      · exact .inl ((List.mem_cons.mp member).resolve_left here)
      · exact .inr ((others q here).trans there)

theorem makeEachOther {wanted : List AbsPath} (outside : q ∉ wanted) :
    (wanted.foldl (fun d q => if d.isDir q then d else d.put q .dir) d).get? q = d.get? q := by
  induction wanted generalizing d with
  | nil => rfl
  | cons r rest ih =>
    obtain ⟨here, later⟩ := not_or.mp (fun known => outside (List.mem_cons.mpr known))
    exact (ih later).trans ((makeOne d r).2 q here)

theorem wantedIff : q ∈ (List.range p.names.length).map (fun n => (⟨p.names.take n⟩ : AbsPath)) ++ [p] ↔
    q.names <+: p.names := by
  rw [List.mem_append, List.mem_singleton, List.mem_map]
  constructor
  · rintro (⟨n, -, rfl⟩ | rfl)
    · exact List.take_prefix n p.names
    · exact List.prefix_refl _
  · intro along
    have names := List.prefix_iff_eq_take.mp along
    rcases Nat.lt_or_eq_of_le along.length_le with short | whole
    · exact .inl ⟨q.names.length, List.mem_range.mpr short, congrArg AbsPath.mk names.symm⟩
    · exact .inr (congrArg AbsPath.mk (along.eq_of_length whole))

theorem makeDirsOther (apart : ¬ q.names <+: p.names) (made : d.makeDirs p = .ok d') : d'.get? q = d.get? q := by
  rcases makeDirsDone made with ⟨-, rfl⟩ | ⟨-, -, rfl⟩
  · rfl
  · exact makeEachOther (mt wantedIff.mp apart)

theorem makeDirsDirectory (above : d.get? p = some .dir → d.Directory p) (made : d.makeDirs p = .ok d') :
    d'.Directory p ∧ ∀ name, d'.get? (p.child name) = d.get? (p.child name) := by
  constructor
  · rcases makeDirsDone made with ⟨there, rfl⟩ | ⟨-, -, rfl⟩
    · exact above there
    · exact fun q along => makeEachDirectory (.inl (wantedIff.mpr along))
  · intro name
    refine makeDirsOther (fun along => ?_) made
    have sizes := along.length_le
    simp only [AbsPath.child, List.length_append, List.length_singleton] at sizes
    omega

theorem replacedFile {content : ByteArray} {mtime : Int} (file : d.get? p = some (.file content mtime))
    (replaced : d.replace p q = .ok d') : d'.get? q = some (.file content mtime) := by
  obtain ⟨node, found, free, rfl⟩ := replaceDone replaced
  obtain rfl := Option.some.inj (file.symm.trans found)
  exact getPutSame _ fun top => free (by simp) (by simp [get?, top])

end Disk

namespace Store
variable {d d' : Disk} {p q : AbsPath} {texts : List String}

theorem loadSame (what : String) (same : d'.get? p = d.get? p) : load d' p what = load d p what := by
  cases held : d.get? p with
  | none => simp only [load, same, held]
  | some node => simp only [load, Files.readJson, Files.readText, Disk.read, Disk.find, same, held]

open Disk

theorem saveCases (directory : d.Directory p) (name : String) (texts : List String) :
    ((save d (p.child name) texts).1 = .ok () ∧ ∀ what,
      load (save d (p.child name) texts).2 (p.child name) what = .ok texts) ∨
    ((∃ fault, (save d (p.child name) texts).1 = .error fault) ∧
      (save d (p.child name) texts).2.get? (p.child name) = d.get? (p.child name)) := by
  have deep : (p.child name).names ≠ [] := by simp [AbsPath.child]
  have draft : (p.child name).draft ≠ p.child name := Disk.draftOther deep
  unfold save saveSteps
  rw [perform, directory.made name]
  dsimp only
  rw [perform]
  split
  · rename_i wrote written
    have first := (writeKeeps (directory.sheltered name) draft written).same _ (List.prefix_refl _)
    have file := (writtenFile written).2
    rw [perform]
    split
    · rename_i moved replaced
      exact .inl ⟨rfl, fun what => savedLoaded what (replacedFile file replaced)⟩
    · exact .inr ⟨⟨_, rfl⟩, first⟩
  · exact .inr ⟨⟨_, rfl⟩, rfl⟩

theorem saveBeside (directory : d.Directory p) {name : String} (other : p.child name ≠ q)
    (draft : (p.child name).draft ≠ q) (above : d.Sheltered q) (texts : List String) :
    Keeps q d (save d (p.child name) texts).2 := by
  unfold save saveSteps
  rw [perform, directory.made name]
  dsimp only
  rw [perform]
  split
  · rename_i wrote written
    have first := writeKeeps above draft written
    refine first.trans ?_
    rw [perform]
    split
    · rename_i moved replaced
      apply replaceKeeps (first.sheltered above) draft other _ replaced
      simp [isLeaf, (writtenFile written).2]
    · exact Keeps.refl _ _
  · exact Keeps.refl _ _

end Store
end DebugSweep
