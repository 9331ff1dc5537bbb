import DebugSweep.Proofs.Accesses
import DebugSweep.Proofs.ClearedFiles
import DebugSweep.Proofs.Convergence
import DebugSweep.Proofs.Excluding

/-! Clearing while the system refuses some of what is asked of it. Main statement: whatever is refused, a
file is left as it is or holds the whole new text, and apart from it only the draft beside it can change. -/
namespace DebugSweep

def System.Unlinks (system : System) : Prop := ∀ log p, system log (.unlink p) = .grant

namespace Disk

def Rooted (d : Disk) : Prop := ∀ p, d.get? p ≠ none → d.Sheltered p

/-- Nothing but what is at the given places changes, and no directory appears or vanishes. -/
structure Shifts (places : List AbsPath) (d d' : Disk) : Prop where
  here : d'.here = d.here
  same : ∀ p, p ∉ places → d'.get? p = d.get? p
  folder : ∀ p, d'.get? p = some .dir ↔ d.get? p = some .dir
  rooted : d'.Rooted

/-- No file is left at a place, and what else there is stays. -/
structure Swept (p : AbsPath) (d d' : Disk) : Prop where
  gone : d'.isLeaf p = false
  same : d.isLeaf p = false → d'.get? p = d.get? p

section
variable {d d' d'' : Disk} {p q : AbsPath} {places places' : List AbsPath}

theorem Housed.rooted (housed : d.Housed) : d.Rooted := by
  intro p there q along other
  have deep : p.names ≠ [] := by
    intro top
    rw [top, List.prefix_nil] at along
    exact other (congrArg AbsPath.mk (along.trans top.symm))
  obtain ⟨node, found⟩ := Option.ne_none_iff_exists'.mp there
  apply (housed.node found deep).2 q
  have shorter : q.names.length ≤ p.names.length - 1 := by
    have long := along.length_le
    have unequal : q.names.length ≠ p.names.length := fun same =>
      other (congrArg AbsPath.mk (along.eq_of_length same))
    omega
  exact List.prefix_of_prefix_length_le along (List.dropLast_prefix p.names)
    (by simpa [AbsPath.parent] using shorter)

theorem Rooted.nothingBelow (rooted : d.Rooted) (plain : d.get? p ≠ some .dir) (along : p.names <+: q.names)
    (other : q ≠ p) : d.get? q = none := by
  by_contra there
  exact plain (rooted q there p along other.symm)

theorem Shifts.refl (rooted : d.Rooted) : Shifts places d d := ⟨rfl, fun _ _ => rfl, fun _ => Iff.rfl, rooted⟩

theorem Shifts.trans (first : Shifts places d d') (second : Shifts places d' d'') : Shifts places d d'' :=
  ⟨second.here.trans first.here, fun p outside => (second.same p outside).trans (first.same p outside),
    fun p => (second.folder p).trans (first.folder p), second.rooted⟩

theorem Shifts.mono (shifts : Shifts places d d') (more : places ⊆ places') : Shifts places' d d' :=
  ⟨shifts.here, fun p outside => shifts.same p (fun inside => outside (more inside)), shifts.folder, shifts.rooted⟩

theorem Shifts.sheltered (shifts : Shifts places d d') (above : d.Sheltered p) : d'.Sheltered p :=
  fun q along other => (shifts.folder q).mpr (above q along other)

theorem putShifts {node : Node} (leaf : node ≠ .dir) (rooted : d.Rooted) (above : d.Sheltered p)
    (plain : d.get? p ≠ some .dir) (deep : p.names ≠ []) : Shifts [p] d (d.put p node) := by
  have here : (d.put p node).get? p = some node := getPutSame _ deep
  have same : ∀ q, q ≠ p → (d.put p node).get? q = d.get? q := fun q other => getPut _ other
  have folder : ∀ q, (d.put p node).get? q = some .dir ↔ d.get? q = some .dir := by
    intro q
    by_cases at_ : q = p
    · subst at_
      simp [here, plain, leaf]
    · rw [same q at_]
  refine ⟨putHere _ _, fun q outside => same q (by simpa using outside), folder, ?_⟩
  intro q there r along other
  rw [folder]
  by_cases at_ : q = p
  · subst at_
    exact above r along other
  · rw [same q at_] at there
    exact rooted q there r along other

theorem Shifts.serial {serial : Nat} (shifts : Shifts places d d') :
    Shifts places d { d' with serial := serial } :=
  ⟨shifts.here, shifts.same, shifts.folder, shifts.rooted⟩

theorem Rooted.child (rooted : d.Rooted) (folder : d.isDir p.parent = true) : d.Sheltered p := by
  intro q along other
  have directory := isDirIff.mp folder
  by_cases last : q = p.parent
  · rw [last, directory]
  · have above : q.names <+: p.parent.names := by
      have unequal : q.names.length ≠ p.names.length := fun same =>
        other (by cases p; cases q; exact congrArg AbsPath.mk (along.eq_of_length same))
      have long := along.length_le
      exact List.prefix_of_prefix_length_le along (List.dropLast_prefix p.names)
        (by simp only [AbsPath.parent, List.length_dropLast]; omega)
    exact rooted p.parent (by simp [directory]) q above last

theorem writeShifts {content : ByteArray} (rooted : d.Rooted) (written : d.write p content = .ok d') :
    Shifts [p] d d' := by
  have deep := (writtenFile written).1
  obtain ⟨⟨nothing, folder⟩ | ⟨old, mtime, found⟩, rfl⟩ := writeDone written
  · exact (putShifts (by simp) rooted (rooted.child folder) (by simp [nothing]) deep).serial
  · exact (putShifts (by simp) rooted (rooted p (by simp [found])) (by simp [found]) deep).serial

theorem getRemoved (below : p.names <+: q.names) (deep : q.names ≠ []) : (d.remove p).get? q = none := by
  unfold get? remove
  rw [if_neg (by simpa using deep)]
  simp only [Option.map_eq_none_iff, List.find?_eq_none, List.mem_filter]
  rintro n ⟨-, kept⟩ same
  exact belowIff.mp kept ((beq_iff_eq.mp same) ▸ below)

theorem removeShifts (rooted : d.Rooted) (file : d.isLeaf p = true) :
    Shifts [p] d (d.remove p) ∧ (d.remove p).get? p = none := by
  have plain : d.get? p ≠ some .dir := fun directory => by simp [isLeaf, directory] at file
  have deep : p.names ≠ [] := fun top => by simp [isLeaf, get?, top] at file
  have gone : (d.remove p).get? p = none := getRemoved (List.prefix_refl _) deep
  have same : ∀ q, q ≠ p → (d.remove p).get? q = d.get? q := by
    intro q other
    by_cases below : p.names <+: q.names
    · have lower : q.names ≠ [] := fun top => deep (List.prefix_nil.mp (top ▸ below))
      rw [getRemoved below lower, rooted.nothingBelow plain below other]
    · exact getRemove below
  have folder : ∀ q, (d.remove p).get? q = some .dir ↔ d.get? q = some .dir := by
    intro q
    by_cases here : q = p
    · subst here
      simp [gone, plain]
    · rw [same q here]
  refine ⟨⟨rfl, fun q outside => same q (by simpa using outside), folder, ?_⟩, gone⟩
  intro q there r along other
  rw [folder]
  by_cases here : q = p
  · subst here
    exact absurd gone there
  · exact rooted q (same q here ▸ there) r along other

theorem replaceShifts (rooted : d.Rooted) (source : d.isLeaf p = true) (target : d.isLeaf q = true)
    (other : p ≠ q) (moved : d.replace p q = .ok d') :
    Shifts [p, q] d d' ∧ d'.get? p = none ∧ d'.get? q = d.get? p := by
  obtain ⟨first, gone⟩ := removeShifts rooted source
  have deep : q.names ≠ [] := fun top => by simp [isLeaf, get?, top] at target
  have plain : d.get? q ≠ some .dir := fun directory => by simp [isLeaf, directory] at target
  have above : d.Sheltered q := rooted q (fun nothing => by simp [isLeaf, nothing] at target)
  obtain ⟨node, found, -, rfl⟩ := replaceDone moved
  have leaf : node ≠ .dir := by
    rintro rfl
    simp [isLeaf, found] at source
  have second : Shifts [q] (d.remove p) ((d.remove p).put q node) :=
    putShifts leaf first.rooted (first.sheltered above) (fun directory => plain ((first.folder q).mp directory)) deep
  refine ⟨(first.mono (by simp)).trans (second.mono (by simp)), ?_, ?_⟩
  · rw [getPut _ other, gone]
  · rw [getPutSame _ deep, found]

theorem tidyShifts (rooted : d.Rooted) :
    Shifts [p] d (Clear.tidy d p) ∧ (Clear.tidy d p).isLeaf p = false ∧
      (d.isLeaf p = false → Clear.tidy d p = d) := by
  unfold Clear.tidy
  split
  · rename_i file
    obtain ⟨shifts, gone⟩ := removeShifts rooted file
    exact ⟨shifts, by simp [isLeaf, gone], fun none => by simp [none] at file⟩
  · rename_i none
    exact ⟨.refl rooted, by simpa using none, fun _ => rfl⟩

theorem tidySwept {content : ByteArray} (drafted : d' = d ∨ d.write p content = .ok d') :
    Swept p d (Clear.tidy d' p) := by
  have gone : d'.isLeaf p = true → (Clear.tidy d' p).get? p = none := by
    intro file
    have deep : p.names ≠ [] := fun top => by simp [isLeaf, get?, top] at file
    simp [Clear.tidy, file, getRemoved (List.prefix_refl _) deep]
  constructor
  · cases file : d'.isLeaf p with
    | true => simp [isLeaf, gone file]
    | false => simp [Clear.tidy, file]
  · intro none
    rcases drafted with rfl | written
    · simp [Clear.tidy, none]
    · obtain ⟨-, file⟩ := writtenFile written
      rw [gone (by simp [isLeaf, file])]
      unfold isLeaf at none
      unfold write at written
      cases found : d.get? p with
      | none => rfl
      | some node => cases node <;> simp [found] at none written

end
end Disk

namespace Watched
open Clear (Report sourceOf? swapIn clearFile clearEach)
open Text

def clearingOf (p : AbsPath) : List Access := [.read p, .write p.draft, .replace p.draft p, .unlink p.draft]

def Adds (accesses : List Access) (w w' : Watched) : Prop := ∃ new, w'.log = w.log ++ new ∧ new ⊆ accesses

inductive Swapped (system : System) (p : AbsPath) (content : ByteArray) (d : Disk) : Option Unit → Disk → Prop
  | moved {d' : Disk} (shifts : Disk.Shifts [p.draft, p] d d') (swept : Disk.Swept p.draft d d')
      (file : ∃ mtime, d'.get? p = some (.file content mtime)) : Swapped system p content d (some ()) d'
  | left {d' : Disk} (shifts : Disk.Shifts [p.draft] d d') (swept : system.Unlinks → Disk.Swept p.draft d d') :
      Swapped system p content d none d'

inductive Treated (system : System) (path : String) (findings : List Finding) (r : Report) (w : Watched) :
    Report → Watched → Prop
  | unread {w' : Watched} (disk : w'.disk = w.disk)
      (adds : Adds ((w.disk.leadsTo? path).toList.map .read) w w') :
      Treated system path findings r w { r with failedFiles := r.failedFiles ++ [path] } w'
  | uncut {w' : Watched} {place : AbsPath} {text : String} (leads : w.disk.leadsTo? path = some place)
      (source : Clear.readSource? w.disk path = some (place, text))
      (nothing : (Clear.fromLines (lines text.toList) findings).cleared = 0) (disk : w'.disk = w.disk)
      (adds : Adds [.read place] w w') :
      Treated system path findings r w
        { r with stale := r.stale + (Clear.fromLines (lines text.toList) findings).stale } w'
  | rewritten {w' : Watched} {place : AbsPath} {text : String} (leads : w.disk.leadsTo? path = some place)
      (source : Clear.readSource? w.disk path = some (place, text))
      (swapped : Swapped system place (String.ofList (Clear.clearText text.toList findings)).toUTF8 w.disk (some ())
        w'.disk)
      (adds : Adds (clearingOf place) w w') (drafted : .write place.draft ∈ w'.log) :
      Treated system path findings r w
        { r with
          cleared := r.cleared + (Clear.fromLines (lines text.toList) findings).cleared
          stale := r.stale + (Clear.fromLines (lines text.toList) findings).stale
          filesChanged := r.filesChanged ++ [path] } w'
  | refused {w' : Watched} {place : AbsPath} {text : String} (leads : w.disk.leadsTo? path = some place)
      (source : Clear.readSource? w.disk path = some (place, text))
      (swapped : Swapped system place (String.ofList (Clear.clearText text.toList findings)).toUTF8 w.disk none w'.disk)
      (adds : Adds (clearingOf place) w w') (drafted : .write place.draft ∈ w'.log) :
      Treated system path findings r w
        { r with
          stale := r.stale + (Clear.fromLines (lines text.toList) findings).stale
          failedFiles := r.failedFiles ++ [path] } w'

section
variable {system : System} {w w' w'' : Watched} {p : AbsPath} {accesses : List Access}

theorem Adds.refl : Adds accesses w w := ⟨[], by simp, by simp⟩

theorem Adds.trans (first : Adds accesses w w') (second : Adds accesses w' w'') : Adds accesses w w'' := by
  obtain ⟨new, log, inside⟩ := first
  obtain ⟨new', log', inside'⟩ := second
  exact ⟨new ++ new', by rw [log', log, List.append_assoc], List.append_subset.mpr ⟨inside, inside'⟩⟩

theorem Adds.mono {more : List Access} (adds : Adds accesses w w') (inside : accesses ⊆ more) : Adds more w w' := by
  obtain ⟨new, log, member⟩ := adds
  exact ⟨new, log, List.Subset.trans member inside⟩

theorem Adds.log {access : Access} (adds : Adds accesses w w') (member : access ∈ w.log) : access ∈ w'.log := by
  obtain ⟨new, log, -⟩ := adds
  exact log ▸ List.mem_append_left new member

theorem notedAdds {access : Access} (noted : w'.log = w.log ++ [access]) (member : access ∈ accesses) :
    Adds accesses w w' :=
  ⟨[access], noted, by simpa using member⟩

theorem unlinkOnShifts (rooted : w.disk.Rooted) : Disk.Shifts [p] w.disk (w.unlinkOn system p).disk ∧
    (system.Unlinks → (w.unlinkOn system p).disk = Clear.tidy w.disk p) := by
  unfold unlinkOn
  split
  · exact ⟨(Disk.tidyShifts rooted).1, fun _ => rfl⟩
  · rename_i refused
    exact ⟨.refl rooted, fun unlinks => absurd (unlinks w.log p) refused⟩

theorem unlinkOnLeft {content part : ByteArray} {w₁ : Watched} (rooted : w.disk.Rooted)
    (drafted : w₁.disk = w.disk ∨ w.disk.write p.draft part = .ok w₁.disk) :
    Swapped system p content w.disk none (w₁.unlinkOn system p.draft).disk := by
  have first : Disk.Shifts [p.draft] w.disk w₁.disk := by
    rcases drafted with same | written
    · rw [same]
      exact .refl rooted
    · exact Disk.writeShifts rooted written
  obtain ⟨second, tidied⟩ := @unlinkOnShifts system w₁ p.draft first.rooted
  exact .left (first.trans second) (fun unlinks => tidied unlinks ▸ Disk.tidySwept drafted)

theorem swapInSwapped (rooted : w.disk.Rooted) (file : w.disk.isLeaf p = true) (text : List Char) :
    Swapped system p (String.ofList text).toUTF8 w.disk (swapIn (ops system) w p text).1
      (swapIn (ops system) w p text).2.disk := by
  have deep : p.names ≠ [] := fun top => by simp [Disk.isLeaf, Disk.get?, top] at file
  have other : p.draft ≠ p := Disk.draftOther deep
  unfold swapIn
  rcases wrote : (ops system).write w p.draft (String.ofList text).toUTF8 with ⟨done, w₁⟩
  rcases writeOnCases wrote with ⟨rfl, written⟩ | ⟨rfl, part, drafted⟩
  · have first := Disk.writeShifts rooted written
    have drafted := (Disk.writtenFile written).2
    dsimp only
    rcases moved : (ops system).replace w₁ p.draft p with ⟨done, w₂⟩
    rcases replaceOnCases moved with ⟨rfl, replaced⟩ | ⟨rfl, same⟩
    · have target : w₁.disk.isLeaf p = true := by
        unfold Disk.isLeaf at file ⊢
        rwa [first.same p (by simpa using other.symm)]
      obtain ⟨second, gone, there⟩ :=
        Disk.replaceShifts first.rooted (by simp [Disk.isLeaf, drafted]) target other replaced
      refine .moved ((first.mono (by simp)).trans second) ⟨by simp [Disk.isLeaf, gone], fun none => ?_⟩
        ⟨_, there.trans drafted⟩
      -- The draft could be written, so no directory was there.
      have plain : w.disk.get? p.draft ≠ some .dir := fun directory => by simp [Disk.write, directory] at written
      rw [gone]
      unfold Disk.isLeaf at none
      cases found : w.disk.get? p.draft with
      | none => rfl
      | some node => cases node <;> simp_all
    · exact unlinkOnLeft rooted (.inr (same ▸ written))
  · exact unlinkOnLeft rooted drafted

theorem sourceCases {path : String} {source : Option (AbsPath × String)}
    (step : sourceOf? (ops system) w path = (source, w')) :
    w'.disk = w.disk ∧ Adds ((w.disk.leadsTo? path).toList.map .read) w w' ∧
      ∀ place text, source = some (place, text) → Clear.readSource? w.disk path = some (place, text) := by
  unfold sourceOf? at step
  cases leads : w.disk.leadsTo? path with
  | none =>
    have nowhere : (ops system).walk w (Written.ofText path) = none := leads
    rw [nowhere] at step
    cases step
    exact ⟨rfl, .refl, by simp⟩
  | some p =>
    have found : (ops system).walk w (Written.ofText path) = some p := leads
    rw [found] at step
    rcases read : w.readOn system p with ⟨content, v⟩
    have read' : (ops system).read w p = (content, v) := read
    simp only [read'] at step
    obtain ⟨rfl, given⟩ := readOnCases read
    cases step
    refine ⟨rfl, notedAdds rfl (by simp), ?_⟩
    intro place text held
    obtain ⟨valid, decoded, same⟩ := Option.map_eq_some_iff.mp held
    cases same
    rcases given with rfl | rfl
    · contradiction
    · exact Clear.readSourceIff.mpr ⟨leads, decoded⟩

theorem swapInAdds (text : List Char) :
    Adds (clearingOf p) w (swapIn (ops system) w p text).2 ∧ .write p.draft ∈ (swapIn (ops system) w p text).2.log := by
  have unlink (v : Watched) : Adds (clearingOf p) v ((ops system).unlink v p.draft) :=
    notedAdds unlinkOnNoted (by simp [clearingOf])
  have noted : ((ops system).write w p.draft (String.ofList text).toUTF8).2.log = w.log ++ [.write p.draft] :=
    writeOnNoted _
  -- The draft is written first, so all that is noted is noted behind that.
  suffices later : Adds (clearingOf p) ((ops system).write w p.draft (String.ofList text).toUTF8).2
      (swapIn (ops system) w p text).2 by
    exact ⟨(notedAdds noted (by simp [clearingOf])).trans later, later.log (by rw [noted]; simp)⟩
  unfold swapIn
  generalize (ops system).write w p.draft (String.ofList text).toUTF8 = step
  obtain ⟨_ | _, w₁⟩ := step
  · exact unlink w₁
  · have moved : Adds (clearingOf p) w₁ ((ops system).replace w₁ p.draft p).2 :=
      notedAdds replaceOnNoted (by simp [clearingOf])
    dsimp only
    generalize (ops system).replace w₁ p.draft p = step at moved ⊢
    obtain ⟨_ | _, w₂⟩ := step
    · exact moved.trans (unlink w₂)
    · exact moved

theorem swapInDone {text : List Char} {done : Option Unit} (rooted : w.disk.Rooted)
    (file : w.disk.isLeaf p = true) (step : swapIn (ops system) w p text = (done, w')) :
    Swapped system p (String.ofList text).toUTF8 w.disk done w'.disk ∧ Adds (clearingOf p) w w' ∧
      .write p.draft ∈ w'.log := by
  have swapped := @swapInSwapped system w p rooted file text
  have noted := @swapInAdds system w p text
  rw [step] at swapped noted
  exact ⟨swapped, noted⟩

theorem clearFileTreated (rooted : w.disk.Rooted) (r : Report) (path : String) (findings : List Finding) :
    Treated system path findings r w (clearFile (ops system) r w path findings).1
      (clearFile (ops system) r w path findings).2 := by
  unfold clearFile
  rcases read : sourceOf? (ops system) w path with ⟨source, w₁⟩
  obtain ⟨disk, reads, found⟩ := sourceCases read
  obtain _ | ⟨place, text⟩ := source
  · exact .unread disk reads
  · have source := found place text rfl
    have leads := (Clear.readSourceIff.mp source).1
    rw [leads] at reads
    dsimp only
    split
    · rename_i nothing
      exact .uncut leads source (by simpa using nothing) disk reads
    · obtain ⟨-, content, mtime, file, -⟩ := Clear.readSourceFound source
      have there : w₁.disk.isLeaf place = true := by rw [disk, Disk.isLeaf, file]
      rcases step : swapIn (ops system) w₁ place
        (unlines (Clear.fromLines (lines text.toList) findings).lines) with ⟨done, w₂⟩
      obtain ⟨swapped, adds, drafted⟩ := swapInDone (disk ▸ rooted) there step
      have all : Adds (clearingOf place) w w₂ := (reads.mono (by simp [clearingOf])).trans adds
      rw [disk] at swapped
      cases done with
      | none => exact .refused leads source swapped all drafted
      | some done => exact .rewritten leads source swapped all drafted

end
end Watched

namespace Clear
open Text

theorem clearFileDone {d : Disk} {p : AbsPath} {path text : String} {mtime : Int} {findings : List Finding} {cut : Cut}
    (rooted : d.Rooted) (leads : d.leadsTo? path = some p) (free : d.Free p.draft)
    (file : d.get? p = some (.file text.toUTF8 mtime)) (cuts : fromLines (lines text.toList) findings = cut)
    (clears : cut.cleared ≠ 0) (r : Report) :
    ∃ d' mtime', clearFile .plain r d path findings =
        ({ r with
            cleared := r.cleared + cut.cleared
            stale := r.stale + cut.stale
            filesChanged := r.filesChanged ++ [path] }, d') ∧
      Disk.Shifts [p.draft, p] d d' ∧ Disk.Swept p.draft d d' ∧
      d'.get? p = some (.file (String.ofList (unlines cut.lines)).toUTF8 mtime') := by
  have settled : d.Settled p := ⟨rooted p (by simp [file]), by simp [Disk.isLeaf, file]⟩
  have source : readSource? d path = some (p, text) := by
    refine Clear.readSourceIff.mpr ⟨leads, ?_⟩
    have readable : d.read p = .ok text.toUTF8 := by
      unfold Disk.read Disk.find
      rw [file]
      rfl
    rw [readable]
    exact decodeEncoded text
  obtain ⟨d', done, -⟩ := swapInDone settled free (unlines cut.lines)
  have swapped := @Watched.swapInSwapped .willing ⟨d, []⟩ p rooted settled.file (unlines cut.lines)
  have same := swapInSame Watched.willingMirrors ⟨d, []⟩ p (unlines cut.lines)
  rw [done] at same
  obtain ⟨one, other⟩ := Prod.mk.inj same
  rw [← one, ← other] at swapped
  cases swapped with
  | moved shifts swept there =>
    obtain ⟨mtime', there⟩ := there
    refine ⟨d', mtime', ?_, shifts, swept, there⟩
    have some : (cut.cleared == 0) = false := by simpa using clears
    simp only [clearFilePlain, source, cuts, some, done]
    simp

end Clear
end DebugSweep
