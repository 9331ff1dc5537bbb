import DebugSweep.Proofs.Watching

/-! What the walk finds. Directories are entered from a root by being listed one after the other. Main statement: the
walk ends, its files are in order and are those that can be taken from entered directories, and its errors are the
entered directories that cannot be listed. -/
namespace DebugSweep

def Source.Lists (source : Source) (dir : AbsPath) : Prop := ∃ entries, source.listDir dir = .ok entries

namespace Walk

/-- Listed directories lead from a root to the directory; below the root each on the way, with the directory itself,
is neither skipped by its name nor excluded. -/
inductive Entered (sel : Selector) (source : Source) : AbsPath → Prop where
  | root {dir : AbsPath} (given : dir ∈ sel.roots) : Entered sel source dir
  | within {dir : AbsPath} {name : String} (outer : Entered sel source dir) (listed : source.Lists dir)
      (folder : source.disk.get? (dir.child name) = some .dir)
      (unskipped : Glob.skippedDirectory sel.skipDirNames (dir.child name).name = false)
      (unexcluded : sel.excludes (dir.child name) true = false) : Entered sel source (dir.child name)

/-- A regular file in a listed directory that is entered, with an extension that is wanted and not excluded. -/
inductive Eligible (sel : Selector) (source : Source) : AbsPath → Prop where
  | inside {dir : AbsPath} {name : String} {content : ByteArray} {mtime : Int} (entered : Entered sel source dir)
      (listed : source.Lists dir) (file : source.disk.get? (dir.child name) = some (.file content mtime))
      (allowed : Glob.allowedExtension sel.includeExtensions (dir.child name).name = true)
      (unexcluded : sel.excludes (dir.child name) false = false) : Eligible sel source (dir.child name)

inductive Unlisted (sel : Selector) (source : Source) : AbsPath × Fault → Prop where
  | failed {dir : AbsPath} {failure : OsFailure} (entered : Entered sel source dir)
      (unlisted : source.listDir dir = .error (.os failure)) :
      Unlisted sel source (dir, .unlistable failure.message)

inductive Opens (sel : Selector) (source : Source) : AbsPath → AbsPath → Prop where
  | here {dir : AbsPath} : Opens sel source dir dir
  | deeper {dir p : AbsPath} {entries : List (String × EntryKind)} {name : String}
      (listed : source.listDir dir = .ok entries) (member : (name, .dir) ∈ entries)
      (entered : sel.enters (dir.child name) = true)
      (later : Opens sel source (dir.child name) p) : Opens sel source dir p

section
variable {sel : Selector} {source : Source} {dir p : AbsPath} {entries : List (String × EntryKind)} {name : String}

theorem entersIff : sel.enters p = true ↔
    Glob.skippedDirectory sel.skipDirNames p.name = false ∧ sel.excludes p true = false := by
  simp [Selector.enters]

theorem takesIff : sel.takes p = true ↔
    Glob.allowedExtension sel.includeExtensions p.name = true ∧ sel.excludes p false = false := by
  simp [Selector.takes]

theorem entryIff (tree : source.disk.Tree) (listed : source.listDir dir = .ok entries) (kind : EntryKind) :
    (name, kind) ∈ entries ↔ ∃ node, source.disk.get? (dir.child name) = some node ∧ node.kind = kind := by
  obtain ⟨parent, named, deep⟩ := dir.childOf name
  rw [(listedPerm listed).mem_iff, List.mem_filterMap]
  constructor
  · rintro ⟨n, member, here⟩
    have place : dir.child name = n.1 := listedChild here
    refine ⟨n.2, place ▸ tree.found member (place ▸ deep), ?_⟩
    unfold listedNode at here
    split at here
    · exact congrArg Prod.snd (Option.some.inj here)
    · contradiction
  · rintro ⟨node, found, same⟩
    refine ⟨_, Disk.nodeFound found deep, ?_⟩
    rw [listedNode, parent, named, if_pos (by simp [deep])]
    exact congrArg (fun kind => some (name, kind)) same

theorem folderIff (tree : source.disk.Tree) (listed : source.listDir dir = .ok entries) :
    (name, .dir) ∈ entries ↔ source.disk.get? (dir.child name) = some .dir := by
  rw [entryIff tree listed]
  constructor
  · rintro ⟨node, found, kind⟩
    cases node with
    | dir => exact found
    | file => contradiction
    | special => contradiction
  · exact fun found => ⟨.dir, found, rfl⟩

theorem fileIff (tree : source.disk.Tree) (listed : source.listDir dir = .ok entries) :
    (name, .file) ∈ entries ↔ ∃ content mtime, source.disk.get? (dir.child name) = some (.file content mtime) := by
  rw [entryIff tree listed]
  constructor
  · rintro ⟨node, found, kind⟩
    cases node with
    | dir => contradiction
    | special => contradiction
    | file content mtime => exact ⟨content, mtime, found⟩
  · rintro ⟨content, mtime, found⟩
    exact ⟨_, found, rfl⟩

theorem Opens.further (opens : Opens sel source p dir) (listed : source.listDir dir = .ok entries)
    (member : (name, .dir) ∈ entries) (entered : sel.enters (dir.child name) = true) :
    Opens sel source p (dir.child name) := by
  induction opens with
  | here => exact .deeper listed member entered .here
  | deeper listed' member' entered' later ih => exact .deeper listed' member' entered' (ih listed entered)

theorem enteredIff (tree : source.disk.Tree) :
    Entered sel source p ↔ ∃ root ∈ sel.roots, Opens sel source root p := by
  constructor
  · intro entered
    induction entered with
    | root given => exact ⟨_, given, .here⟩
    | within outer listed folder unskipped unexcluded ih =>
      obtain ⟨root, given, opens⟩ := ih
      obtain ⟨entries, listed⟩ := listed
      exact ⟨root, given, opens.further listed ((folderIff tree listed).mpr folder)
        (entersIff.mpr ⟨unskipped, unexcluded⟩)⟩
  · rintro ⟨root, given, opens⟩
    have entered : Entered sel source root := .root given
    clear given
    induction opens with
    | here => exact entered
    | deeper listed member enters later ih =>
      obtain ⟨unskipped, unexcluded⟩ := entersIff.mp enters
      exact ih (.within entered ⟨_, listed⟩ ((folderIff tree listed).mp member) unskipped unexcluded)

theorem reachesOpens : Reaches sel source dir p ↔ ∃ outer entries name, p = outer.child name ∧
    Opens sel source dir outer ∧ source.listDir outer = .ok entries ∧ (name, .file) ∈ entries ∧ sel.takes p = true := by
  constructor
  · intro reaches
    induction reaches with
    | file listed member taken => exact ⟨_, _, _, rfl, .here, listed, member, taken⟩
    | deeper listed member entered later ih =>
      obtain ⟨outer, entries, name, same, opens, rest⟩ := ih
      exact ⟨outer, entries, name, same, .deeper listed member entered opens, rest⟩
  · rintro ⟨outer, entries, name, rfl, opens, listed, member, taken⟩
    induction opens with
    | here => exact .file listed member taken
    | deeper listed' member' entered' later ih => exact .deeper listed' member' entered' (ih listed taken)

theorem eligibleIff (tree : source.disk.Tree) :
    Eligible sel source p ↔ ∃ root ∈ sel.roots, Reaches sel source root p := by
  constructor
  · rintro ⟨entered, ⟨entries, listed⟩, file, allowed, unexcluded⟩
    obtain ⟨root, given, opens⟩ := (enteredIff tree).mp entered
    exact ⟨root, given, reachesOpens.mpr ⟨_, _, _, rfl, opens, listed, (fileIff tree listed).mpr ⟨_, _, file⟩,
      takesIff.mpr ⟨allowed, unexcluded⟩⟩⟩
  · rintro ⟨root, given, reaches⟩
    obtain ⟨outer, entries, name, rfl, opens, listed, member, taken⟩ := reachesOpens.mp reaches
    obtain ⟨content, mtime, file⟩ := (fileIff tree listed).mp member
    obtain ⟨allowed, unexcluded⟩ := takesIff.mp taken
    exact .inside ((enteredIff tree).mpr ⟨root, given, opens⟩) ⟨entries, listed⟩ file allowed unexcluded

end

def Refuses (sel : Selector) (source : Source) (dir : AbsPath) (error : AbsPath × Fault) : Prop :=
  Opens sel source dir error.1 ∧
    ∃ failure, source.listDir error.1 = .error (.os failure) ∧ error.2 = .unlistable failure.message

def Notes (sel : Selector) (source : Source) (w : Walk) (error : AbsPath × Fault) : Prop :=
  error ∈ w.errors ∨ ∃ dir ∈ w.stack, Refuses sel source dir error

section
variable {sel : Selector} {source : Source} {dir : AbsPath} {entries : List (String × EntryKind)} {w w' : Walk}
  {error : AbsPath × Fault}

theorem refusesListed (listed : source.listDir dir = .ok entries) : Refuses sel source dir error ↔
    ∃ next ∈ chosen dir .dir sel.enters entries, Refuses sel source next error := by
  simp only [chosenMember]
  constructor
  · rintro ⟨opens, failure, unlisted, same⟩
    cases opens with
    | here =>
      rw [listed] at unlisted
      contradiction
    | deeper listed' member entered later =>
      rw [listed] at listed'
      cases listed'
      exact ⟨_, ⟨_, member, rfl, entered⟩, later, failure, unlisted, same⟩
  · rintro ⟨next, ⟨name, member, rfl, entered⟩, later, unlisted⟩
    exact ⟨.deeper listed member entered later, unlisted⟩

theorem refusesFailed {failure : OsFailure} (failed : source.listDir dir = .error (.os failure)) :
    Refuses sel source dir error ↔ error = (dir, .unlistable failure.message) := by
  constructor
  · rintro ⟨opens, failure', unlisted, same⟩
    obtain ⟨p, fault⟩ := error
    cases opens with
    | here =>
      rw [failed] at unlisted
      cases unlisted
      exact Prod.ext rfl same
    | deeper listed member entered later =>
      rw [failed] at listed
      contradiction
  · rintro rfl
    exact ⟨.here, failure, failed, rfl⟩

theorem stepNotes {stack : List AbsPath} (next : w.stack = dir :: stack) (stepped : w.step sel source = .ok w') :
    Notes sel source w' error ↔ Notes sel source w error := by
  unfold step at stepped
  rw [next] at stepped
  dsimp only at stepped
  simp only [Notes, next, List.exists_mem_cons_iff]
  split at stepped
  · rename_i entries listed
    cases stepped
    simp only [enterChosen, List.mem_append, or_and_right, exists_or, refusesListed listed]
  · rename_i failure failed
    cases stepped
    simp only [List.mem_append, List.mem_singleton, refusesFailed failed, or_assoc]
  · contradiction

-- The induction is on the steps; each leaves what is noted already or will be.
theorem runNotes {fuel : Nat} (ran : run sel source fuel w = .ok w') :
    Notes sel source w' error ↔ Notes sel source w error := by
  induction fuel generalizing w with
  | zero =>
    cases ran
    rfl
  | succ fuel ih =>
    unfold run at ran
    split at ran
    · cases ran
      rfl
    · rename_i dir stack next
      split at ran
      · rename_i between stepped
        exact (ih ran).trans (stepNotes next stepped)
      · contradiction

theorem unlistedIff (tree : source.disk.Tree) :
    Unlisted sel source error ↔ ∃ root ∈ sel.roots, Refuses sel source root error := by
  constructor
  · rintro ⟨entered, unlisted⟩
    obtain ⟨root, given, opens⟩ := (enteredIff tree).mp entered
    exact ⟨root, given, opens, _, unlisted, rfl⟩
  · obtain ⟨p, fault⟩ := error
    rintro ⟨root, given, opens, failure, unlisted, rfl⟩
    exact .failed ((enteredIff tree).mpr ⟨root, given, opens⟩) unlisted

end

theorem collectExactly (sel : Selector) {source : Source} (tree : source.disk.Tree)
    (system : source.faults.SystemOnly) :
    ∃ w, collect sel source = .ok w ∧ w.stack = [] ∧ (∀ p, p ∈ w.found ↔ Eligible sel source p) ∧
      w.found.Pairwise (fun p q => p.text ≤ q.text) ∧ ∀ error, error ∈ w.errors ↔ Unlisted sel source error := by
  obtain ⟨w, ran, done, -⟩ := runKeeps sel tree system (startLoad sel source)
  obtain ⟨w', collected, members, -⟩ := collectOnce sel tree system
  have same : collect sel source = .ok { w with found := w.found.mergeSort AbsPath.notAfter } := by
    unfold collect
    rw [ran]
    rfl
  obtain rfl := Except.ok.inj (collected.symm.trans same)
  refine ⟨_, same, done, fun p => ?_, (sortedFound w.found).imp (by simp [AbsPath.notAfter]), fun error => ?_⟩
  · rw [members, eligibleIff tree]
  · have noted := @runNotes _ _ _ _ error _ ran
    rw [unlistedIff tree]
    simpa [Notes, done, start] using noted

/-- One file to scan. The others are in a directory that is excluded, skipped or cannot be listed, or they have
another extension or are no regular files. -/
def lockedFolder : Source where
  disk :=
    { nodes := [(⟨["w"]⟩, .dir), (⟨["w", "app"]⟩, .dir), (⟨["w", "app", "a.php"]⟩, .file "dd(1);".toUTF8 1),
        (⟨["w", "app", "a.txt"]⟩, .file "dd(2);".toUTF8 1), (⟨["w", "app", "pipe.php"]⟩, .special 1),
        (⟨["w", "gen"]⟩, .dir), (⟨["w", "gen", "b.php"]⟩, .file "dd(3);".toUTF8 1),
        (⟨["w", "vendor"]⟩, .dir), (⟨["w", "vendor", "c.php"]⟩, .file "dd(4);".toUTF8 1),
        (⟨["w", "locked"]⟩, .dir), (⟨["w", "locked", "d.php"]⟩, .file "dd(5);".toUTF8 1)] }
  faults := { listDir := [("/w/locked", .os 13 "Permission denied")] }

def workspaceSelector : Selector := ⟨[⟨["w"]⟩], Glob.rules ["**/gen/**"], ["vendor"], [".php"]⟩

theorem lockedFolderEntered {p : AbsPath} (entered : Entered workspaceSelector lockedFolder p) :
    p = ⟨["w"]⟩ ∨ p = ⟨["w", "app"]⟩ ∨ p = ⟨["w", "locked"]⟩ := by
  have left : ∀ n ∈ lockedFolder.disk.nodes, n.2.kind = .dir → workspaceSelector.enters n.1 = true →
      n.1 = ⟨["w"]⟩ ∨ n.1 = ⟨["w", "app"]⟩ ∨ n.1 = ⟨["w", "locked"]⟩ := by decide +kernel
  cases entered with
  | root given => exact .inl (by simpa [workspaceSelector] using given)
  | within outer listed folder unskipped unexcluded =>
    exact left _ (Disk.nodeFound folder (AbsPath.childOf _ _).2.2) rfl (entersIff.mpr ⟨unskipped, unexcluded⟩)

theorem lockedFolderTold : ∃ w, collect workspaceSelector lockedFolder = .ok w ∧
    (∀ p, p ∈ w.found ↔ p = ⟨["w", "app", "a.php"]⟩) ∧
    ∀ error, error ∈ w.errors ↔
      error = (⟨["w", "locked"]⟩, .unlistable "[Errno 13] Permission denied: '/w/locked'") := by
  obtain ⟨w, collected, -, found, -, errors⟩ := @collectExactly workspaceSelector lockedFolder
    ⟨by decide +kernel, by simp [lockedFolder]; decide +kernel⟩ (by simp [Faults.SystemOnly, lockedFolder])
  have top : Entered workspaceSelector lockedFolder ⟨["w"]⟩ := .root (by simp [workspaceSelector])
  have app : Entered workspaceSelector lockedFolder ⟨["w", "app"]⟩ :=
    @Entered.within _ _ ⟨["w"]⟩ "app" top ⟨_, rfl⟩ rfl (by decide +kernel) (by decide +kernel)
  have locked : Entered workspaceSelector lockedFolder ⟨["w", "locked"]⟩ :=
    @Entered.within _ _ ⟨["w"]⟩ "locked" top ⟨_, rfl⟩ rfl (by decide +kernel) (by decide +kernel)
  have failed : lockedFolder.listDir ⟨["w", "locked"]⟩ =
      .error (.os ⟨13, "Permission denied", "/w/locked", none⟩) := by decide +kernel
  have taken : ∀ n ∈ lockedFolder.disk.nodes, n.2.kind = .file → workspaceSelector.takes n.1 = true →
      n.1 = ⟨["w", "app", "a.php"]⟩ ∨ n.1.parent = ⟨["w", "vendor"]⟩ ∨ n.1.parent = ⟨["w", "locked"]⟩ := by
    decide +kernel
  refine ⟨w, collected, fun p => (found p).trans ⟨fun eligible => ?_, ?_⟩, fun error => (errors error).trans ⟨?_, ?_⟩⟩
  · cases eligible with
    | @inside dir name content mtime entered listed file allowed unexcluded =>
      obtain ⟨parent, -, deep⟩ := dir.childOf name
      have one := taken _ (Disk.nodeFound file deep) rfl (takesIff.mpr ⟨allowed, unexcluded⟩)
      rw [parent] at one
      rcases one with here | vendor | unlisted
      · exact here
      · rw [vendor] at entered
        exact absurd (lockedFolderEntered entered) (by decide)
      · obtain ⟨entries, listed⟩ := listed
        rw [unlisted, failed] at listed
        cases listed
  · rintro rfl
    exact @Eligible.inside _ _ ⟨["w", "app"]⟩ "a.php" _ _ app ⟨_, rfl⟩ rfl (by decide +kernel) (by decide +kernel)
  · rintro ⟨entered, unlisted⟩
    rcases lockedFolderEntered entered with rfl | rfl | rfl
    · cases unlisted
    · cases unlisted
    · rw [failed] at unlisted
      cases unlisted
      rfl
  · rintro rfl
    exact .failed locked failed

end Walk
end DebugSweep
