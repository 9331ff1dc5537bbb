import DebugSweep.Proofs.Directories

/-! Clearing on a disk that notes what is done with its files. Main statements: apart from the notes it is
clearing itself, and clearing a path touches nothing but the file it leads to and the draft beside it. -/
namespace DebugSweep

def Finding.LiesIn (roots : List AbsPath) (f : Finding) : Prop :=
  ∃ p : AbsPath, f.filePath = p.text ∧ p.Inside roots

inductive Access where
  | read (p : AbsPath)
  | write (p : AbsPath)
  | replace (source target : AbsPath)
  | unlink (p : AbsPath)
  deriving DecidableEq, Repr

def Access.places : Access → List AbsPath
  | .read p | .write p | .unlink p => [p]
  | .replace source target => [source, target]

inductive Answer where
  | grant
  | refuse
  /-- So many bytes of a text are written before the rest is refused. -/
  | cutShort (length : Nat)
  deriving DecidableEq, Repr

def System := List Access → Access → Answer

def System.willing : System := fun _ _ => .grant

/-- A disk with the accesses to its files, also those that failed, in their order. -/
structure Watched where
  disk : Disk
  log : List Access := []

namespace Watched
open Clear (Report FileOps)
open Text

def note (w : Watched) (access : Access) (d : Disk) : Watched := ⟨d, w.log ++ [access]⟩

def read (w : Watched) (p : AbsPath) : Option ByteArray × Watched :=
  ((w.disk.read p).toOption, w.note (.read p) w.disk)

def change (w : Watched) (access : Access) (result : Except OsFailure Disk) : Bool × Watched :=
  match result with
  | .ok d => (true, w.note access d)
  | .error _ => (false, w.note access w.disk)

def write (w : Watched) (p : AbsPath) (content : ByteArray) : Bool × Watched :=
  w.change (.write p) (w.disk.write p content)

def replace (w : Watched) (source target : AbsPath) : Bool × Watched :=
  w.change (.replace source target) (w.disk.replace source target)

def unlink (w : Watched) (p : AbsPath) : Watched := w.note (.unlink p) (Clear.tidy w.disk p)

section
variable (system : System)

def readOn (w : Watched) (p : AbsPath) : Option ByteArray × Watched :=
  match system w.log (.read p) with
  | .grant => w.read p
  | _ => (none, w.note (.read p) w.disk)

def writeOn (w : Watched) (p : AbsPath) (content : ByteArray) : Bool × Watched :=
  match system w.log (.write p) with
  | .grant => w.write p content
  | .refuse => (false, w.note (.write p) w.disk)
  | .cutShort length => (false, (w.write p (content.extract 0 length)).2)

def replaceOn (w : Watched) (source target : AbsPath) : Bool × Watched :=
  match system w.log (.replace source target) with
  | .grant => w.replace source target
  | _ => (false, w.note (.replace source target) w.disk)

def unlinkOn (w : Watched) (p : AbsPath) : Watched :=
  match system w.log (.unlink p) with
  | .grant => w.unlink p
  | _ => w.note (.unlink p) w.disk

def ops : FileOps Watched where
  walk w path := (w.disk.walk path).toOption
  read := readOn system
  write := writeOn system
  replace := replaceOn system
  unlink := unlinkOn system

def fromFilesOn (w : Watched) (findings : List Finding) (bookmarks : List String) :
    Except Fault Report × Watched :=
  Clear.fromFilesBy (ops system) w findings bookmarks

end

def fromFiles (w : Watched) (findings : List Finding) (bookmarks : List String) :
    Except Fault Report × Watched :=
  w.fromFilesOn .willing findings bookmarks

end Watched

namespace Clear

/-- Through a view of what is there, one kind of files answers as another does. -/
structure FileOps.Mirrors {σ τ : Type} (ops : FileOps σ) (ops' : FileOps τ) (view : σ → τ) : Prop where
  walk : ∀ s w, ops'.walk (view s) w = ops.walk s w
  read : ∀ s p, ops'.read (view s) p = ((ops.read s p).1, view (ops.read s p).2)
  write : ∀ s p content, ops'.write (view s) p content =
    ((ops.write s p content).1, view (ops.write s p content).2)
  replace : ∀ s p q, ops'.replace (view s) p q = ((ops.replace s p q).1, view (ops.replace s p q).2)
  unlink : ∀ s p, ops'.unlink (view s) p = view (ops.unlink s p)

section
variable {σ τ : Type} {ops : FileOps σ} {ops' : FileOps τ} {view : σ → τ} (mirrors : ops.Mirrors ops' view)
include mirrors

theorem sourceSame (s : σ) (path : String) :
    sourceOf? ops' (view s) path = ((sourceOf? ops s path).1, view (sourceOf? ops s path).2) := by
  unfold sourceOf?
  rw [mirrors.walk]
  cases ops.walk s (Written.ofText path) with
  | none => rfl
  | some place => simp only [mirrors.read]

theorem swapInSame (s : σ) (p : AbsPath) (text : List Char) :
    swapIn ops' (view s) p text = ((swapIn ops s p text).1, view (swapIn ops s p text).2) := by
  unfold swapIn
  rw [mirrors.write]
  rcases ops.write s p.draft (String.ofList text).toUTF8 with ⟨_ | _, s'⟩
  · dsimp only
    rw [mirrors.unlink]
  · dsimp only
    rw [mirrors.replace]
    rcases ops.replace s' p.draft p with ⟨_ | _, s''⟩
    · dsimp only
      rw [mirrors.unlink]
    · rfl

theorem clearFileSame (r : Report) (s : σ) (path : String) (findings : List Finding) :
    clearFile ops' r (view s) path findings =
      ((clearFile ops r s path findings).1, view (clearFile ops r s path findings).2) := by
  unfold clearFile
  rw [sourceSame mirrors]
  rcases sourceOf? ops s path with ⟨_ | ⟨place, text⟩, s'⟩
  · rfl
  · dsimp only
    rw [swapInSame mirrors]
    split
    · rfl
    · rcases swapIn ops s' place _ with ⟨_ | _, s''⟩ <;> rfl

theorem clearEachSame (findings : List Finding) (r : Report) (s : σ) (paths : List String) :
    clearEach ops' findings r (view s) paths =
      ((clearEach ops findings r s paths).1, view (clearEach ops findings r s paths).2) := by
  induction paths generalizing r s with
  | nil => rfl
  | cons path rest ih =>
    unfold clearEach
    split
    · rfl
    · rw [clearFileSame mirrors]
      exact ih _ _

end
end Clear

namespace Watched
open Clear (Report sourceOf? swapIn clearFile clearEach)
open Text

theorem willingMirrors : (ops .willing).Mirrors .plain Watched.disk where
  walk _ _ := rfl
  read _ _ := rfl
  write w p content := by
    change Clear.attempt w.disk (w.disk.write p content) = _
    cases written : w.disk.write p content <;>
      simp [Clear.attempt, ops, writeOn, System.willing, write, change, written, note]
  replace w p q := by
    change Clear.attempt w.disk (w.disk.replace p q) = _
    cases moved : w.disk.replace p q <;>
      simp [Clear.attempt, ops, replaceOn, System.willing, replace, change, moved, note]
  unlink _ _ := rfl

theorem fromFilesWilling (w : Watched) (findings : List Finding) (bookmarks : List String) :
    Clear.fromFiles w.disk findings bookmarks =
      ((w.fromFilesOn .willing findings bookmarks).1, (w.fromFilesOn .willing findings bookmarks).2.disk) :=
  Clear.clearEachSame willingMirrors _ _ _ _

theorem fromFilesSame (w : Watched) (findings : List Finding) (bookmarks : List String) :
    Clear.fromFiles w.disk findings bookmarks =
      ((w.fromFiles findings bookmarks).1, (w.fromFiles findings bookmarks).2.disk) :=
  w.fromFilesWilling findings bookmarks

section
variable {system : System} {w w' : Watched} {p q : AbsPath}

theorem changeNoted (w : Watched) (access : Access) (result : Except OsFailure Disk) :
    (w.change access result).2.log = w.log ++ [access] := by
  cases result <;> rfl

theorem writeOnNoted (content : ByteArray) : (w.writeOn system p content).2.log = w.log ++ [.write p] := by
  unfold writeOn
  split
  · exact changeNoted w _ _
  · rfl
  · exact changeNoted w _ _

theorem replaceOnNoted : (w.replaceOn system p q).2.log = w.log ++ [.replace p q] := by
  unfold replaceOn
  split
  · exact changeNoted w _ _
  · rfl

theorem unlinkOnNoted : (w.unlinkOn system p).log = w.log ++ [.unlink p] := by
  unfold unlinkOn
  split <;> rfl

theorem readOnCases {content : Option ByteArray} (step : w.readOn system p = (content, w')) :
    w' = w.note (.read p) w.disk ∧ (content = none ∨ content = (w.disk.read p).toOption) := by
  unfold readOn at step
  split at step
  · cases step
    exact ⟨rfl, .inr rfl⟩
  · cases step
    exact ⟨rfl, .inl rfl⟩

theorem writeOnCases {content : ByteArray} {done : Bool} (step : w.writeOn system p content = (done, w')) :
    (done = true ∧ w.disk.write p content = .ok w'.disk) ∨
      (done = false ∧ ∃ part, w'.disk = w.disk ∨ w.disk.write p part = .ok w'.disk) := by
  have change : ∀ {bytes : ByteArray} {ok : Bool} {v : Watched}, w.write p bytes = (ok, v) →
      (ok = true ∧ w.disk.write p bytes = .ok v.disk) ∨ (ok = false ∧ v.disk = w.disk) := by
    intro bytes ok v wrote
    unfold write Watched.change at wrote
    split at wrote
    · rename_i d written
      cases wrote
      exact .inl ⟨rfl, written⟩
    · cases wrote
      exact .inr ⟨rfl, rfl⟩
  unfold writeOn at step
  split at step
  · rcases change step with whole | ⟨none, same⟩
    · exact .inl whole
    · exact .inr ⟨none, content, .inl same⟩
  · cases step
    exact .inr ⟨rfl, content, .inl rfl⟩
  · rename_i length _
    cases step
    refine .inr ⟨rfl, content.extract 0 length, ?_⟩
    rcases change (Prod.eta (w.write p (content.extract 0 length))).symm with ⟨-, part⟩ | ⟨-, same⟩
    · exact .inr part
    · exact .inl same

theorem replaceOnCases {q : AbsPath} {done : Bool} (step : w.replaceOn system p q = (done, w')) :
    (done = true ∧ w.disk.replace p q = .ok w'.disk) ∨ (done = false ∧ w'.disk = w.disk) := by
  unfold replaceOn at step
  split at step
  · unfold replace Watched.change at step
    split at step
    · rename_i d moved
      cases step
      exact .inl ⟨rfl, moved⟩
    · cases step
      exact .inr ⟨rfl, rfl⟩
  · cases step
    exact .inr ⟨rfl, rfl⟩

end

/-- What new accesses touch lies at a root or below it, and the roots stay directories. -/
structure Stays (roots : List AbsPath) (w w' : Watched) : Prop where
  touched : ∀ access ∈ w'.log, access ∈ w.log ∨ ∀ p ∈ access.places, p.Within roots
  grounded : w.disk.Grounded roots → w'.disk.Grounded roots

section
variable {system : System} {roots : List AbsPath} {w w' w'' : Watched} {p : AbsPath}

theorem Stays.refl : Stays roots w w := ⟨fun _ member => .inl member, id⟩

theorem Stays.trans (first : Stays roots w w') (second : Stays roots w' w'') : Stays roots w w'' := by
  refine ⟨?_, fun grounded => second.grounded (first.grounded grounded)⟩
  intro access member
  rcases second.touched access member with old | new
  · exact first.touched access old
  · exact .inr new

theorem noteStays {access : Access} (noted : w'.log = w.log ++ [access]) (inside : ∀ p ∈ access.places, p.Within roots)
    (grounded : w.disk.Grounded roots → w'.disk.Grounded roots) : Stays roots w w' := by
  refine ⟨?_, grounded⟩
  intro other member
  rw [noted] at member
  rcases List.mem_append.mp member with old | new
  · exact .inl old
  · rw [List.mem_singleton.mp new]
    exact .inr inside

theorem tidyGrounded {d : Disk} (grounded : d.Grounded roots) (p : AbsPath) : (Clear.tidy d p).Grounded roots := by
  unfold Clear.tidy
  split
  · rename_i leaf
    exact grounded.remove (fun directory => by simp [Disk.isLeaf, directory] at leaf)
  · exact grounded

theorem unlinkOnStays (inside : p.Within roots) : Stays roots w (w.unlinkOn system p) := by
  apply noteStays unlinkOnNoted
  · simpa [Access.places] using inside
  · intro grounded
    unfold unlinkOn
    split
    · exact tidyGrounded grounded p
    · exact grounded

theorem swapInStays (here : p.Within roots) (beside : p.draft.Within roots) (text : List Char) :
    Stays roots w (swapIn (ops system) w p text).2 := by
  unfold swapIn
  have noted : ((ops system).write w p.draft (String.ofList text).toUTF8).2.log = w.log ++ [.write p.draft] :=
    writeOnNoted _
  rcases wrote : (ops system).write w p.draft (String.ofList text).toUTF8 with ⟨done, w₁⟩
  rw [wrote] at noted
  have first : Stays roots w w₁ := by
    refine noteStays noted (by simpa [Access.places] using beside) (fun grounded => ?_)
    rcases writeOnCases wrote with ⟨-, written⟩ | ⟨-, part, same | written⟩
    · exact grounded.write beside.proper written
    · rwa [same]
    · exact grounded.write beside.proper written
  refine first.trans ?_
  cases done with
  | false => exact unlinkOnStays beside
  | true =>
    obtain ⟨-, written⟩ | ⟨none, -⟩ := writeOnCases wrote
    · have file : w₁.disk.isLeaf p.draft = true := by simp [Disk.isLeaf, (Disk.writtenFile written).2]
      have noted : ((ops system).replace w₁ p.draft p).2.log = w₁.log ++ [.replace p.draft p] := replaceOnNoted
      dsimp only
      rcases moved : (ops system).replace w₁ p.draft p with ⟨done, w₂⟩
      rw [moved] at noted
      have second : Stays roots w₁ w₂ := by
        refine noteStays noted (by simp [Access.places, beside, here]) (fun grounded => ?_)
        rcases replaceOnCases moved with ⟨-, replaced⟩ | ⟨-, same⟩
        · exact grounded.replace here.proper file replaced
        · rwa [same]
      cases done with
      | false => exact second.trans (unlinkOnStays beside)
      | true => exact second
    · contradiction

theorem sourceStays {path : String} (here : ((Written.ofText path).placeFrom w.disk.here).Within roots) :
    Stays roots w (sourceOf? (ops system) w path).2 ∧ ∀ place text,
      (sourceOf? (ops system) w path).1 = some (place, text) → place = (Written.ofText path).placeFrom w.disk.here := by
  unfold sourceOf?
  cases walked : (ops system).walk w (Written.ofText path) with
  | none => exact ⟨.refl, by simp⟩
  | some place =>
    have same : place = (Written.ofText path).placeFrom w.disk.here := Disk.leadsPlace walked
    change Stays roots w (w.readOn system place).2 ∧ ∀ place' text,
      ((w.readOn system place).1.bind decode?).map (fun text => (place, text)) = some (place', text) → place' = _
    rcases read : w.readOn system place with ⟨content, w₁⟩
    obtain ⟨rfl, -⟩ := readOnCases read
    have noted : (w.note (.read place) w.disk).log = w.log ++ [.read place] := rfl
    refine ⟨noteStays noted (by simpa [Access.places, same] using here) id, ?_⟩
    intro place' text source
    obtain ⟨text', -, pair⟩ := Option.map_eq_some_iff.mp source
    cases pair
    exact same

theorem clearFileStays {path : String} (here : ((Written.ofText path).placeFrom w.disk.here).Within roots)
    (beside : ((Written.ofText path).placeFrom w.disk.here).draft.Within roots) (r : Report)
    (findings : List Finding) : Stays roots w (clearFile (ops system) r w path findings).2 := by
  obtain ⟨read, place⟩ := @sourceStays system roots w path here
  unfold clearFile
  generalize sourceOf? (ops system) w path = source at read place
  obtain ⟨_ | ⟨p, text⟩, w₁⟩ := source
  · exact read
  · rw [← place p text rfl] at here beside
    dsimp only
    split
    · exact read
    · have swapped := read.trans (@swapInStays system roots w₁ p here beside
        (unlines (Clear.fromLines (lines text.toList) findings).lines))
      generalize swapIn (ops system) w₁ p _ = step at swapped
      obtain ⟨_ | _, w₂⟩ := step
      · exact swapped
      · exact swapped

theorem clearEachStays {paths : List String} (inside : ∀ path ∈ paths, ∃ p : AbsPath, path = p.text ∧ p.Inside roots)
    (r : Report) (findings : List Finding) : Stays roots w (clearEach (ops system) findings r w paths).2 := by
  induction paths generalizing w r with
  | nil => exact .refl
  | cons path rest ih =>
    obtain ⟨⟨p, rfl, here⟩, later⟩ := List.forall_mem_cons.mp inside
    unfold clearEach
    split
    · exact .refl
    · have leads := here.proper.leads w.disk.here
      refine (clearFileStays ?_ ?_ r _).trans (ih later _)
      · exact leads.symm ▸ here.within
      · exact leads.symm ▸ here.draft

theorem fromFilesStays {findings : List Finding} (inside : ∀ f ∈ findings, f.LiesIn roots)
    (bookmarks : List String) : Stays roots w (w.fromFilesOn system findings bookmarks).2 := by
  apply clearEachStays
  intro path member
  have listed := ((sortedOnce (fun path : String => path) _ (fun _ _ _ _ same => same)).2 path).mp member
  obtain ⟨f, free, rfl⟩ := List.mem_map.mp listed
  exact inside f (List.mem_filter.mp free).1

end
end Watched
end DebugSweep
