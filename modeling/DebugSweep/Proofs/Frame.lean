import DebugSweep.Clear.Files
import DebugSweep.Store.ListFile
import Mathlib.Data.List.Basic

/-! What changes of files leave alone. A place is settled if a file is there and all above it are
directories. Main statement: writing, moving and tidying other files and making directories change
nothing at a settled place and above it. -/
namespace DebugSweep.Disk

theorem belowIff {p q : AbsPath} : (p.below? q).isNone = true ↔ ¬ p.names <+: q.names := by
  unfold AbsPath.below?
  split <;> simp_all

theorem findUpdated {nodes : List (AbsPath × Node)} {p q : AbsPath} (node : Node) (other : q ≠ p) :
    (nodes.map (fun n => if n.1 == p then (p, node) else n)).find? (fun n => n.1 == q) =
      nodes.find? (fun n => n.1 == q) := by
  induction nodes with
  | nil => rfl
  | cons n rest ih =>
    rw [List.map_cons, List.find?_cons, List.find?_cons, ih]
    by_cases here : n.1 = p
    · have apart : (p == q) = false := beq_eq_false_iff_ne.mpr other.symm
      simp [here, apart]
    · simp [here]

theorem nodeFound {d : Disk} {p : AbsPath} {node : Node} (found : d.get? p = some node) (deep : p.names ≠ []) :
    (p, node) ∈ d.nodes := by
  unfold get? at found
  rw [if_neg (by simpa using deep)] at found
  obtain ⟨n, here, rfl⟩ := Option.map_eq_some_iff.mp found
  obtain rfl : n.1 = p := by simpa using List.find?_some here
  exact List.mem_of_find?_eq_some here

theorem getPut {d : Disk} {p q : AbsPath} (node : Node) (other : q ≠ p) :
    (d.put p node).get? q = d.get? q := by
  unfold get? put
  split
  · rfl
  · split
    · rw [findUpdated node other]
    · have apart : (p == q) = false := beq_eq_false_iff_ne.mpr other.symm
      simp [List.find?_append, apart]

theorem getPutSame {d : Disk} {p : AbsPath} (node : Node) (below : p.names ≠ []) :
    (d.put p node).get? p = some node := by
  have deep : p.names.isEmpty = false := by simpa using below
  unfold get? put
  simp only [deep, Bool.false_eq_true, if_false]
  split
  · rename_i known
    dsimp only
    generalize d.nodes = nodes at known
    induction nodes with
    | nil => simp at known
    | cons n rest ih =>
      rw [List.map_cons, List.find?_cons]
      cases here : n.1 == p with
      | true => simp
      | false =>
        rw [List.any_cons, here, Bool.false_or] at known
        simp only [Bool.false_eq_true, if_false, here]
        exact ih known
  · rename_i unknown
    have fresh : d.nodes.find? (fun n => n.1 == p) = none := by
      rw [List.find?_eq_none]
      intro n member here
      exact unknown (List.any_eq_true.mpr ⟨n, member, here⟩)
    simp [List.find?_append, fresh]

theorem getRemove {d : Disk} {p q : AbsPath} (outside : ¬ p.names <+: q.names) :
    (d.remove p).get? q = d.get? q := by
  unfold get? remove
  split
  · rfl
  · dsimp only
    rw [List.find?_filter]
    congr 2
    funext n
    by_cases here : n.1 = q
    · simp [here, belowIff.mpr outside]
    · simp [here]

structure Keeps (p : AbsPath) (d d' : Disk) : Prop where
  here : d'.here = d.here
  same : ∀ q : AbsPath, q.names <+: p.names → d'.get? q = d.get? q

def Sheltered (d : Disk) (p : AbsPath) : Prop :=
  ∀ q : AbsPath, q.names <+: p.names → q ≠ p → d.get? q = some .dir

structure Settled (d : Disk) (p : AbsPath) : Prop where
  above : d.Sheltered p
  file : d.isLeaf p = true

theorem isDirIff {d : Disk} {q : AbsPath} : d.isDir q = true ↔ d.get? q = some .dir := by
  unfold isDir
  split <;> simp_all

theorem settledIff {d : Disk} {p : AbsPath} : d.Settled p ↔
    (∀ n < p.names.length, d.isDir ⟨p.names.take n⟩ = true) ∧ d.isLeaf p = true := by
  constructor
  · intro settled
    refine ⟨fun n short => isDirIff.mpr ?_, settled.file⟩
    apply settled.above _ (List.take_prefix n _)
    intro same
    have sizes := congrArg (fun q : AbsPath => q.names.length) same
    simp only [List.length_take] at sizes
    omega
  · rintro ⟨above, file⟩
    refine ⟨fun q along other => ?_, file⟩
    have names : q.names = p.names.take q.names.length := List.prefix_iff_eq_take.mp along
    have short : q.names.length < p.names.length := by
      refine Nat.lt_of_le_of_ne along.length_le fun same => other ?_
      cases p
      cases q
      exact congrArg AbsPath.mk (along.eq_of_length same)
    have directory := isDirIff.mp (above q.names.length short)
    rwa [← names] at directory

/-- Nothing is there, or a regular file that can be written over. -/
def Free (d : Disk) (p : AbsPath) : Prop := ∀ node ∈ d.get? p, node.kind = .file

instance (d : Disk) (p : AbsPath) : Decidable (d.Free p) := inferInstanceAs (Decidable (∀ node ∈ d.get? p, _))

instance (d : Disk) (p : AbsPath) : Decidable (d.Settled p) := decidable_of_iff _ settledIff.symm

theorem Keeps.refl (p : AbsPath) (d : Disk) : Keeps p d d := ⟨rfl, fun _ _ => rfl⟩

theorem Keeps.trans {p : AbsPath} {a b c : Disk} (first : Keeps p a b) (second : Keeps p b c) :
    Keeps p a c :=
  ⟨second.here.trans first.here, fun q along => (second.same q along).trans (first.same q along)⟩

theorem Keeps.sheltered {p : AbsPath} {d d' : Disk} (keeps : Keeps p d d') (above : d.Sheltered p) :
    d'.Sheltered p := by
  intro q along other
  rw [keeps.same q along]
  exact above q along other

theorem Keeps.settled {p : AbsPath} {d d' : Disk} (keeps : Keeps p d d') (settled : d.Settled p) :
    d'.Settled p := by
  constructor
  · exact keeps.sheltered settled.above
  · unfold isLeaf
    rw [keeps.same p (List.prefix_refl _)]
    exact settled.file

section
variable {d d' : Disk} {p : AbsPath}

theorem Settled.deep (settled : d.Settled p) : p.names ≠ [] := by
  intro top
  have file := settled.file
  simp [isLeaf, get?, top] at file

theorem Sheltered.apart (above : d.Sheltered p) {q : AbsPath} (other : q ≠ p)
    (plain : d.get? q ≠ some .dir) : ¬ q.names <+: p.names :=
  fun along => plain (above q along other)

theorem writeDone {q : AbsPath} {content : ByteArray} (written : d.write q content = .ok d') :
    ((d.get? q = none ∧ d.isDir q.parent = true) ∨ ∃ old mtime, d.get? q = some (.file old mtime)) ∧
      d' = { d.put q (.file content (timeOf d.serial)) with serial := d.serial + 1 } := by
  unfold write at written
  split at written
  · contradiction
  · contradiction
  · rename_i old mtime found
    cases written
    exact ⟨.inr ⟨old, mtime, found⟩, rfl⟩
  · rename_i nothing
    split at written
    · rename_i folder
      cases written
      exact ⟨.inl ⟨nothing, folder⟩, rfl⟩
    · contradiction

theorem writeFree {q : AbsPath} (free : d.Free q) (folder : d.isDir q.parent = true) (content : ByteArray) :
    ∃ d', d.write q content = .ok d' := by
  unfold write
  cases there : d.get? q with
  | none =>
    dsimp only
    rw [if_pos folder]
    exact ⟨_, rfl⟩
  | some node =>
    cases node with
    | file old mtime => exact ⟨_, rfl⟩
    | dir => exact absurd (free _ there) (by decide)
    | special mtime => exact absurd (free _ there) (by simp [Node.kind])

theorem replaceDone {a b : AbsPath} (moved : d.replace a b = .ok d') :
    ∃ node, d.get? a = some node ∧ (node ≠ .dir → d.get? b ≠ some .dir) ∧ d' = (d.remove a).put b node := by
  unfold replace at moved
  split at moved
  · contradiction
  · contradiction
  · rename_i node found noFile noSpecial
    cases moved
    refine ⟨node, found, fun plain directory => ?_, rfl⟩
    cases node with
    | dir => exact plain rfl
    | file content mtime => exact noFile content mtime directory rfl
    | special mtime => exact noSpecial mtime directory rfl
  · contradiction

theorem makeDirsDone {q : AbsPath} (made : d.makeDirs q = .ok d') : (d.get? q = some .dir ∧ d' = d) ∨
    (d.get? q = none ∧ (∀ n < q.names.length, d.isLeaf ⟨q.names.take n⟩ = false) ∧
      d' = ((List.range q.names.length).map (fun n => (⟨q.names.take n⟩ : AbsPath)) ++ [q]).foldl
        (fun d q => if d.isDir q then d else d.put q .dir) d) := by
  unfold makeDirs at made
  split at made
  · rename_i there
    cases made
    exact .inl ⟨there, rfl⟩
  · contradiction
  · contradiction
  · rename_i nothing
    dsimp only at made
    split at made
    · contradiction
    · rename_i noLeaf
      cases made
      exact .inr ⟨nothing, by simpa using noLeaf, rfl⟩

theorem putHere (q : AbsPath) (node : Node) : (d.put q node).here = d.here := by
  unfold put
  split <;> rfl

theorem putKeeps {q : AbsPath} (node : Node) (apart : ¬ q.names <+: p.names) :
    Keeps p d (d.put q node) := by
  refine ⟨putHere q node, ?_⟩
  · intro r along
    apply getPut
    rintro rfl
    exact apart along

theorem serialKeeps {serial : Nat} (keeps : Keeps p d d') : Keeps p d { d' with serial := serial } :=
  ⟨keeps.here, keeps.same⟩

theorem writeKeeps {q : AbsPath} {content : ByteArray} (above : d.Sheltered p) (other : q ≠ p)
    (written : d.write q content = .ok d') : Keeps p d d' := by
  obtain ⟨free, rfl⟩ := writeDone written
  have plain : d.get? q ≠ some .dir := by
    rcases free with ⟨nothing, -⟩ | ⟨old, mtime, file⟩ <;> simp [*]
  exact serialKeeps (putKeeps _ (above.apart other plain))

theorem appendKeeps {q : AbsPath} {content : ByteArray} (above : d.Sheltered p) (other : q ≠ p)
    (written : d.append q content = .ok d') : Keeps p d d' := by
  unfold append at written
  split at written
  · exact writeKeeps above other written
  · exact writeKeeps above other written

theorem removeKeeps {q : AbsPath} (above : d.Sheltered p) (other : q ≠ p) (file : d.isLeaf q = true) :
    Keeps p d (d.remove q) := by
  have apart : ¬ q.names <+: p.names := by
    apply above.apart other
    intro directory
    simp [isLeaf, directory] at file
  exact ⟨rfl, fun r along => getRemove (fun inside => apart (inside.trans along))⟩

theorem replaceKeeps {a b : AbsPath} (above : d.Sheltered p) (source : a ≠ p) (target : b ≠ p)
    (file : d.isLeaf a = true) (moved : d.replace a b = .ok d') : Keeps p d d' := by
  have removed := removeKeeps above source file
  obtain ⟨node, found, free, rfl⟩ := replaceDone moved
  have plain : node ≠ .dir := by
    rintro rfl
    simp [isLeaf, found] at file
  exact removed.trans (putKeeps node (above.apart target (free plain)))

-- Directories are made only where nothing is, so none is made in place of the file.
theorem makeEachKeeps {wanted : List AbsPath} (settled : d.Settled p) (outside : p ∉ wanted) :
    Keeps p d (wanted.foldl (fun d q => if d.isDir q then d else d.put q .dir) d) := by
  induction wanted generalizing d with
  | nil => exact Keeps.refl p d
  | cons q rest ih =>
    have others : p ∉ rest := fun member => outside (List.mem_cons_of_mem _ member)
    rw [List.foldl_cons]
    split
    · exact ih settled others
    · rename_i missing
      have other : q ≠ p := by
        rintro rfl
        exact outside List.mem_cons_self
      have plain : d.get? q ≠ some .dir := by
        intro directory
        simp [isDir, directory] at missing
      have made := putKeeps (d := d) .dir (settled.above.apart other plain)
      exact made.trans (ih (made.settled settled) others)

theorem makeDirsKeeps {q : AbsPath} (settled : d.Settled p) (made : d.makeDirs q = .ok d') :
    Keeps p d d' := by
  rcases makeDirsDone made with ⟨-, rfl⟩ | ⟨nothing, noLeaf, rfl⟩
  · exact Keeps.refl p d'
  · have file := settled.file
    apply makeEachKeeps settled
    intro wanted
    rcases List.mem_append.mp wanted with above | last
    · obtain ⟨n, short, rfl⟩ := List.mem_map.mp above
      rw [noLeaf n (List.mem_range.mp short)] at file
      contradiction
    · simp [isLeaf, List.mem_singleton.mp last, nothing] at file

theorem writtenFile {q : AbsPath} {content : ByteArray} (written : d.write q content = .ok d') :
    q.names ≠ [] ∧ d'.get? q = some (.file content (timeOf d.serial)) := by
  have deep : q.names ≠ [] := by
    intro top
    simp [write, get?, top] at written
  obtain ⟨-, rfl⟩ := writeDone written
  exact ⟨deep, getPutSame _ deep⟩

theorem writeOthers {q : AbsPath} {content : ByteArray} (written : d.write q content = .ok d')
    (other : p ≠ q) : d'.get? p = d.get? p := by
  obtain ⟨-, rfl⟩ := writeDone written
  exact getPut _ other

theorem readFound {q : AbsPath} {content : ByteArray} (readable : d.read q = .ok content) :
    ∃ mtime, d.get? q = some (.file content mtime) := by
  unfold read find at readable
  cases found : d.get? q with
  | none =>
    rw [found] at readable
    contradiction
  | some node =>
    rw [found] at readable
    cases node with
    | dir => contradiction
    | special mtime => contradiction
    | file old mtime =>
      cases readable
      exact ⟨mtime, rfl⟩

structure Rewrites (p : AbsPath) (content : ByteArray) (d d' : Disk) : Prop where
  here : d'.here = d.here
  above : ∀ q : AbsPath, q.names <+: p.names → q ≠ p → d'.get? q = d.get? q
  file : ∃ mtime, d'.get? p = some (.file content mtime)

theorem Rewrites.settled {content : ByteArray} (rewrites : Rewrites p content d d')
    (settled : d.Settled p) : d'.Settled p := by
  constructor
  · intro q along other
    rw [rewrites.above q along other]
    exact settled.above q along other
  · obtain ⟨mtime, file⟩ := rewrites.file
    simp [isLeaf, file]

theorem foldlTraced {step : α → β → Except ε α} (view : α → γ) (trace : γ → β → γ)
    (effect : ∀ s x next, step s x = .ok next → view next = trace (view s) x) {xs : List β}
    {start last : α} (done : xs.foldlM step start = .ok last) :
    view last = xs.foldl trace (view start) := by
  induction xs generalizing start with
  | nil =>
    cases done
    rfl
  | cons x rest ih =>
    rw [List.foldlM_cons] at done
    cases first : step start x with
    | error failure =>
      rw [first] at done
      contradiction
    | ok next =>
      rw [first] at done
      rw [ih done, List.foldl_cons, effect start x next first]

theorem walkPlace {w : Written} {q : AbsPath} (found : d.walk w = .ok q) : q = w.placeFrom d.here := by
  have backwards := foldlTraced (fun place : AbsPath => place.names.reverse) Written.enter (by
    intro place name next step
    split at step
    · cases step
      unfold Written.enter
      split
      · simp [AbsPath.parent]
      · simp [AbsPath.child]
    · contradiction
    · contradiction) found
  have start : (if w.root == "" then d.here else ⟨[]⟩ : AbsPath).names.reverse =
      if w.root == "" then d.here.names.reverse else [] := by
    split <;> rfl
  rw [start] at backwards
  rw [Written.placeFrom, ← backwards, List.reverse_reverse]

def leadsTo? (d : Disk) (path : String) : Option AbsPath := (d.walk (Written.ofText path)).toOption

theorem leadsPlace {path : String} (leads : d.leadsTo? path = some p) : p = (Written.ofText path).placeFrom d.here := by
  unfold leadsTo? at leads
  cases led : d.walk (Written.ofText path) with
  | error failure => simp [led, Except.toOption] at leads
  | ok found =>
    obtain rfl : found = p := by simpa [led, Except.toOption] using leads
    exact walkPlace led

end
end DebugSweep.Disk

namespace DebugSweep
open Disk
variable {d : Disk} {p : AbsPath}

theorem Store.saveKeeps {q : AbsPath} (settled : d.Settled p) (other : q ≠ p) (draft : q.draft ≠ p)
    (texts : List String) : Keeps p d (Store.save d q texts).2 := by
  unfold Store.save Store.saveSteps
  rw [Store.perform]
  split
  · rename_i made madeDirs
    have first := makeDirsKeeps settled madeDirs
    refine first.trans ?_
    rw [Store.perform]
    split
    · rename_i wrote written
      have second := writeKeeps (first.settled settled).above draft written
      refine second.trans ?_
      rw [Store.perform]
      split
      · rename_i moved replaced
        apply replaceKeeps (second.settled (first.settled settled)).above draft other _ replaced
        simp [isLeaf, (writtenFile written).2]
      · exact Keeps.refl _ _
    · exact Keeps.refl _ _
  · exact Keeps.refl _ _

namespace Clear
open Text

def readSource? (d : Disk) (path : String) : Option (AbsPath × String) := (sourceOf? .plain d path).1

theorem readSourceIff {path text : String} : readSource? d path = some (p, text) ↔
    d.leadsTo? path = some p ∧ (d.read p).toOption.bind decode? = some text := by
  have led : FileOps.plain.walk d (Written.ofText path) = d.leadsTo? path := rfl
  unfold readSource? sourceOf?
  rw [led]
  cases d.leadsTo? path with
  | none => simp
  | some place =>
    simp only [FileOps.plain, Option.map_eq_some_iff, Prod.mk.injEq, Option.some.injEq]
    constructor
    · rintro ⟨text, held, rfl, rfl⟩
      exact ⟨rfl, held⟩
    · rintro ⟨rfl, held⟩
      exact ⟨text, held, rfl, rfl⟩

theorem sourcePlain (d : Disk) (path : String) : sourceOf? .plain d path = (readSource? d path, d) := by
  unfold readSource? sourceOf?
  cases FileOps.plain.walk d (Written.ofText path) <;> rfl

theorem swapInPlain (d : Disk) (p : AbsPath) (text : List Char) : swapIn .plain d p text =
    match d.write p.draft (String.ofList text).toUTF8 with
    | .error _ => (none, tidy d p.draft)
    | .ok d' =>
        match d'.replace p.draft p with
        | .error _ => (none, tidy d' p.draft)
        | .ok d'' => (some (), d'') := by
  unfold swapIn FileOps.plain
  dsimp only
  cases d.write p.draft (String.ofList text).toUTF8 with
  | error failure => rfl
  | ok d' =>
    dsimp only [attempt]
    cases d'.replace p.draft p <;> rfl

theorem clearFilePlain (r : Report) (d : Disk) (path : String) (findings : List Finding) :
    clearFile .plain r d path findings =
      match readSource? d path with
      | none => ({ r with failedFiles := r.failedFiles ++ [path] }, d)
      | some (place, text) =>
          let cut := fromLines (lines text.toList) findings
          let r := { r with stale := r.stale + cut.stale }
          if cut.cleared == 0 then (r, d)
          else
            match swapIn .plain d place (unlines cut.lines) with
            | (some (), d') =>
                ({ r with cleared := r.cleared + cut.cleared, filesChanged := r.filesChanged ++ [path] }, d')
            | (none, d') => ({ r with failedFiles := r.failedFiles ++ [path] }, d') := by
  unfold clearFile
  rw [sourcePlain]
  rcases readSource? d path with _ | ⟨place, text⟩
  · rfl
  · dsimp only
    rcases swapIn .plain d place _ with ⟨_ | _, d'⟩ <;> rfl

theorem tidyKeeps {q : AbsPath} (above : d.Sheltered p) (other : q ≠ p) : Keeps p d (tidy d q) := by
  unfold tidy
  split
  · exact removeKeeps above other (by assumption)
  · exact Keeps.refl _ _

theorem swapInKeeps {q : AbsPath} (above : d.Sheltered p) (other : q ≠ p) (draft : q.draft ≠ p)
    (text : List Char) : Keeps p d (swapIn .plain d q text).2 := by
  rw [swapInPlain]
  split
  · exact tidyKeeps above draft
  · rename_i wrote written
    have first := writeKeeps above draft written
    refine first.trans ?_
    split
    · exact tidyKeeps (first.sheltered above) draft
    · rename_i moved replaced
      apply replaceKeeps (first.sheltered above) draft other _ replaced
      simp [isLeaf, (writtenFile written).2]

theorem movedRewrites {wrote moved : Disk} {content : ByteArray} (settled : d.Settled p) (draft : p.draft ≠ p)
    (written : d.write p.draft content = .ok wrote) (replaced : wrote.replace p.draft p = .ok moved) :
    Rewrites p content d moved := by
  have first := writeKeeps settled.above draft written
  have file : wrote.get? p.draft = some _ := (writtenFile written).2
  have removed := first.trans (removeKeeps (first.settled settled).above draft (by simp [isLeaf, file]))
  obtain ⟨node, found, -, rfl⟩ := replaceDone replaced
  obtain rfl := Option.some.inj (file.symm.trans found)
  refine ⟨?_, ?_, _, getPutSame _ settled.deep⟩
  · rw [putHere]
    exact removed.here
  · intro q along apart
    rw [getPut _ apart]
    exact removed.same q along

theorem swapInRewrites (settled : d.Settled p) (draft : p.draft ≠ p) (text : List Char) :
    Keeps p d (swapIn .plain d p text).2 ∨
      Rewrites p (String.ofList text).toUTF8 d (swapIn .plain d p text).2 := by
  rw [swapInPlain]
  split
  · exact Or.inl (tidyKeeps settled.above draft)
  · rename_i wrote written
    have first := writeKeeps settled.above draft written
    split
    · exact Or.inl (first.trans (tidyKeeps (first.settled settled).above draft))
    · rename_i moved replaced
      exact Or.inr (movedRewrites settled draft written replaced)

theorem readSourceFound {path : String} {place : AbsPath} {text : String}
    (source : readSource? d path = some (place, text)) :
    (Written.ofText path).placeFrom d.here = place ∧ ∃ content mtime,
      d.get? place = some (.file content mtime) ∧ decode? content = some text := by
  obtain ⟨walked, valid⟩ := readSourceIff.mp source
  cases held : d.read place with
  | error failure => simp [held, Except.toOption] at valid
  | ok bytes =>
    obtain ⟨mtime, file⟩ := readFound held
    exact ⟨(leadsPlace walked).symm, bytes, mtime, file, by simpa [held, Except.toOption] using valid⟩

theorem clearFileKeeps {path : String} (above : d.Sheltered p) (drafts : ∀ q : AbsPath, q.draft ≠ p)
    (other : (Written.ofText path).placeFrom d.here ≠ p) (r : Report) (findings : List Finding) :
    Keeps p d (clearFile .plain r d path findings).2 := by
  rw [clearFilePlain]
  dsimp only
  split
  · exact Keeps.refl p d
  · rename_i place text source
    obtain ⟨rfl, -⟩ := readSourceFound source
    split
    · exact Keeps.refl p d
    · have keeps := swapInKeeps above other (drafts _) (unlines (fromLines (lines text.toList) findings).lines)
      split <;> simp_all

theorem clearFileCases (settled : d.Settled p) (drafts : ∀ q : AbsPath, q.draft ≠ p) (r : Report)
    (path : String) (findings : List Finding) :
    Keeps p d (clearFile .plain r d path findings).2 ∨
    ((Written.ofText path).placeFrom d.here = p ∧ ∃ text content mtime,
      d.get? p = some (.file content mtime) ∧ decode? content = some text ∧
      Rewrites p (String.ofList (unlines (fromLines (lines text.toList) findings).lines)).toUTF8 d
        (clearFile .plain r d path findings).2) := by
  by_cases other : (Written.ofText path).placeFrom d.here = p
  · rw [clearFilePlain]
    dsimp only
    split
    · exact Or.inl (Keeps.refl p d)
    · rename_i place text source
      obtain ⟨named, content, mtime, file, valid⟩ := readSourceFound source
      obtain rfl : place = p := named.symm.trans other
      split
      · exact Or.inl (Keeps.refl place d)
      · rcases swapInRewrites settled (drafts place)
          (unlines (fromLines (lines text.toList) findings).lines) with keeps | rewrites
        · left
          split <;> simp_all
        · right
          refine ⟨named, text, content, mtime, file, valid, ?_⟩
          split <;> simp_all
  · exact Or.inl (clearFileKeeps settled.above drafts other r findings)

end Clear
end DebugSweep
