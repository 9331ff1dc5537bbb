import DebugSweep.Proofs.Convergence
import DebugSweep.Proofs.Duplicates
import DebugSweep.Watch

/-! Files that are looked at between scans. Main statement: a look sees every file that a scan of the
workspace scans, and it sees no other one exactly when some root leads to each file it sees without
passing an excluded directory. -/
namespace DebugSweep

theorem repsMember {α : Type} [BEq α] [LawfulBEq α] {x : α} (items : List α) :
    x ∈ items.eraseReps ↔ x ∈ items := by
  have looped : ∀ a rest, x ∈ List.eraseRepsBy.loop (· == ·) a rest [] ↔ x ∈ a :: rest := by
    intro a rest
    induction rest generalizing a with
    | nil => simp [List.eraseRepsBy.loop]
    | cons b rest ih =>
      rw [List.eraseRepsBy.loop]
      cases same : a == b with
      | true =>
        obtain rfl : a = b := by simpa using same
        rw [ih]
        simp
      | false =>
        dsimp only
        rw [repsDone b rest [a], List.reverse_singleton, List.singleton_append, List.mem_cons, ih,
          List.mem_cons (b := a)]
  cases items with
  | nil => rfl
  | cons a rest => exact looped a rest

theorem mapOk {ε α β : Type} {f : α → Except ε β} {g : α → β} {items : List α}
    (each : ∀ a ∈ items, f a = .ok (g a)) : items.mapM f = .ok (items.map g) := by
  induction items with
  | nil => rfl
  | cons a rest ih =>
    rw [List.mapM_cons, each a List.mem_cons_self, ih (fun b member => each b (List.mem_cons_of_mem _ member))]
    rfl

namespace AbsPath

structure Between (root dir p : AbsPath) : Prop where
  below : root.names <+: dir.names
  above : dir.names <+: p.names
  start : dir ≠ root
  stop : dir ≠ p

theorem Between.length {root dir p : AbsPath} (between : root.Between dir p) :
    root.names.length < dir.names.length ∧ dir.names.length < p.names.length := by
  have shorter := between.below.length_le
  have longer := between.above.length_le
  have first : root.names.length ≠ dir.names.length := fun same =>
    between.start (congrArg AbsPath.mk (between.below.eq_of_length same)).symm
  have last : dir.names.length ≠ p.names.length := fun same =>
    between.stop (congrArg AbsPath.mk (between.above.eq_of_length same))
  omega

theorem Proper.nameWritten {p : AbsPath} (proper : p.Proper) (deep : p.names ≠ []) :
    (Written.ofText p.text).name = p.name ∧ (Written.ofText p.name).name = p.name := by
  refine ⟨by rw [proper.written]; rfl, ?_⟩
  have named : properName p.name = true := by
    rw [name, List.getLast?_eq_some_getLast deep, Option.getD_some]
    exact proper _ (List.getLast_mem deep)
  obtain ⟨some, dot, -, slash, -⟩ := properParts named
  have whole : p.name.toList.splitOn '/' = [p.name.toList] := by
    have free : ∀ piece ∈ [p.name.toList], '/' ∉ piece := by simpa using slash
    simpa using List.splitOn_intercalate '/' free (by simp)
  simp [Written.name, Written.ofText, whole, some, dot]

end AbsPath

namespace Selector

def unruled (sel : Selector) : Selector := { sel with rules := [] }

section
variable (sel : Selector) (p : AbsPath)

theorem entersUnruled : sel.enters p = (sel.unruled.enters p && !sel.excludes p true) := by
  simp [enters, unruled, excludes, Glob.excluded]

theorem takesUnruled : sel.takes p = (sel.unruled.takes p && !sel.excludes p false) := by
  simp [takes, unruled, excludes, Glob.excluded]

end
end Selector

namespace Walk

section
variable {sel : Selector} {source : Source} {root p : AbsPath}

theorem reachesOpen : Reaches sel source root p ↔ Reaches sel.unruled source root p ∧
    sel.excludes p false = false ∧ ∀ dir, root.Between dir p → sel.excludes dir true = false := by
  constructor
  · intro reaches
    induction reaches with
    | @file root entries name listed member taken =>
      rw [Selector.takesUnruled, Bool.and_eq_true, Bool.not_eq_true'] at taken
      refine ⟨.file listed member taken.1, taken.2, ?_⟩
      intro dir between
      have lengths := between.length
      simp only [AbsPath.child, List.length_append, List.length_singleton] at lengths
      omega
    | @deeper root p entries name listed member entered later ih =>
      rw [Selector.entersUnruled, Bool.and_eq_true, Bool.not_eq_true'] at entered
      obtain ⟨plain, taken, free⟩ := ih
      refine ⟨.deeper listed member entered.1 plain, taken, ?_⟩
      intro dir between
      by_cases here : dir = root.child name
      · rw [here]
        exact entered.2
      · obtain ⟨next, more, names⟩ := later.strictlyBelow
        refine free dir ⟨?_, between.above, here, between.stop⟩
        refine List.prefix_of_prefix_length_le ⟨_, names.symm⟩ between.above ?_
        simpa [AbsPath.child] using Nat.succ_le_of_lt between.length.1
  · rintro ⟨plain, taken, free⟩
    induction plain with
    | @file root entries name listed member allowed =>
      exact .file listed member (by rw [Selector.takesUnruled, allowed, taken]; rfl)
    | @deeper root p entries name listed member allowed later ih =>
      obtain ⟨next, more, names⟩ := later.strictlyBelow
      have inside : root.Between (root.child name) p := by
        refine ⟨List.prefix_append _ _, ⟨_, names.symm⟩, ?_, ?_⟩
        · intro same
          simpa [AbsPath.child] using congrArg (fun q => q.names.length) same
        · intro same
          rw [← same] at names
          simpa using congrArg List.length names
      refine .deeper listed member (by rw [Selector.entersUnruled, allowed, free _ inside]; rfl)
        (ih taken fun dir between => ?_)
      refine free dir ⟨(List.prefix_append _ _).trans between.below, between.above, ?_, between.stop⟩
      intro same
      have lengths := between.length.1
      rw [same] at lengths
      simp [AbsPath.child] at lengths

theorem Reaches.deep (reaches : Reaches sel source root p) : p.names ≠ [] := by
  obtain ⟨name, more, names⟩ := reaches.strictlyBelow
  simp [names]

theorem Reaches.taken (reaches : Reaches sel source root p) : sel.takes p = true := by
  induction reaches with
  | file listed member taken => exact taken
  | deeper listed member entered later ih => exact ih

end
end Walk

theorem Disk.Tree.found {d : Disk} {n : AbsPath × Node} (tree : d.Tree) (member : n ∈ d.nodes)
    (deep : n.1.names ≠ []) : d.get? n.1 = some n.2 := by
  have unique : d.nodes.find? (fun m => m.1 == n.1) = some n := by
    obtain ⟨m, here⟩ : ∃ m, d.nodes.find? (fun m => m.1 == n.1) = some m :=
      Option.isSome_iff_exists.mp (List.find?_isSome.mpr ⟨n, member, by simp⟩)
    have same : m.1 = n.1 := by simpa using List.find?_some here
    rw [here, List.inj_on_of_nodup_map tree.once (List.mem_of_find?_eq_some here) member same]
  simp [get?, deep, unique]

theorem Walk.Reaches.isFile {sel : Selector} {source : Source} {root p : AbsPath}
    (reaches : Reaches sel source root p) (tree : source.disk.Tree) :
    p.Proper ∧ ∃ content mtime, source.disk.get? p = some (.file content mtime) := by
  induction reaches with
  | deeper listed member entered later ih => exact ih
  | @file dir entries name listed member taken =>
    obtain ⟨n, present, here⟩ := List.mem_filterMap.mp ((listedPerm listed).mem_iff.mp member)
    have place : dir.child name = n.1 := listedChild here
    have node := tree.found present (by simp [← place, AbsPath.child])
    rw [place, node]
    refine ⟨tree.proper n present, ?_⟩
    unfold listedNode at here
    split at here
    · cases kind : n.2 with
      | file content mtime => exact ⟨content, mtime, rfl⟩
      | dir => simp [kind, Node.kind] at here
      | special mtime => simp [kind, Node.kind] at here
    · contradiction

def Disk.fileStat? (d : Disk) (p : AbsPath) : Option FileStat :=
  match d.get? p with
  | some (.file content mtime) => some ⟨content.size, mtime⟩
  | _ => none

theorem Engine.eligibleTakes {e : Engine} {p : AbsPath} (proper : p.Proper) (deep : p.names ≠ []) :
    e.eligible ⟨[]⟩ p.text = e.selector.takes p := by
  obtain ⟨whole, last⟩ := proper.nameWritten deep
  have suffixes : (Written.ofText p.text).suffix = (Written.ofText p.name).suffix := by
    rw [Written.suffix, Written.suffix, whole, last]
  simp only [eligible, Selector.takes, Selector.excludes, Glob.allowedExtension, suffixes]
  rfl

namespace Watch.State

section
variable {s : State}

theorem lookListed {w : Walk} (tree : s.source.disk.Tree) (calm : s.source.faults = {})
    (walked : Walk.collect s.engine.selector.unruled s.source = .ok w)
    (members : ∀ p, p ∈ w.found ↔ ∃ root ∈ s.engine.settings.scan.roots,
      Walk.Reaches s.engine.selector.unruled s.source root p) :
    s.look = .ok ((w.found.eraseReps.filter (fun p => s.engine.eligible ⟨[]⟩ p.text)).filterMap (fun p =>
      (s.source.disk.fileStat? p).map (fun stat => (p.text, stat.size, stat.mtime)))) := by
  have plain : Walk.collect { s.engine.selector with rules := [] } s.source = .ok w := walked
  unfold look
  rw [plain]
  dsimp only [bind, Except.bind]
  rw [mapOk (g := fun p => (s.source.disk.fileStat? p).map (fun stat => (p.text, stat.size, stat.mtime)))]
  · dsimp only [pure, Except.pure]
    rw [List.filterMap_map]
    rfl
  · intro p member
    obtain ⟨root, -, reaches⟩ := (members p).mp ((repsMember _).mp (List.mem_filter.mp member).1)
    obtain ⟨-, content, mtime, file⟩ := reaches.isFile tree
    simp [Disk.fileStat?, file, Source.statCalm calm file]

theorem lookSees (tree : s.source.disk.Tree) (calm : s.source.faults = {}) :
    ∃ seen, s.look = .ok seen ∧ ∀ entry, entry ∈ seen ↔ ∃ p stat,
      (∃ root ∈ s.engine.settings.scan.roots, Walk.Reaches s.engine.selector.unruled s.source root p) ∧
        s.engine.selector.takes p = true ∧ s.source.disk.fileStat? p = some stat ∧
        entry = (p.text, stat.size, stat.mtime) := by
  have system : s.source.faults.SystemOnly := by simp [calm, Faults.SystemOnly]
  obtain ⟨w, walked, members, -⟩ := Walk.collectOnce s.engine.selector.unruled tree system
  refine ⟨_, lookListed tree calm walked members, fun entry => ?_⟩
  simp only [List.mem_filterMap, List.mem_filter, repsMember, members, Option.map_eq_some_iff]
  constructor
  · rintro ⟨p, ⟨⟨root, member, reaches⟩, eligible⟩, stat, sized, rfl⟩
    rw [Engine.eligibleTakes (reaches.isFile tree).1 reaches.deep] at eligible
    exact ⟨p, stat, ⟨root, member, reaches⟩, eligible, sized, rfl⟩
  · rintro ⟨p, stat, ⟨root, member, reaches⟩, taken, sized, rfl⟩
    rw [← Engine.eligibleTakes (reaches.isFile tree).1 reaches.deep] at taken
    exact ⟨p, ⟨⟨root, member, reaches⟩, taken⟩, stat, sized, rfl⟩

theorem watchedScannedIff (now : String) (idle : s.engine.scanning = false)
    (tree : s.source.disk.Tree) (calm : s.source.faults = {}) :
    ∃ seen w, s.look = .ok seen ∧ Walk.collect s.engine.selector s.source = .ok w ∧
      (s.engine.scanWorkspace s.source now).1 = (Engine.scanPaths { s.engine with scanning := true }
        s.source now w.found (Engine.walkErrors now w)).1 ∧
      (∀ path ∈ w.found.map AbsPath.text, path ∈ seen.map Prod.fst) ∧
      ((∀ path, path ∈ seen.map Prod.fst ↔ path ∈ w.found.map AbsPath.text) ↔
        ∀ root ∈ s.engine.settings.scan.roots, ∀ p, s.engine.selector.takes p = true →
          Walk.Reaches s.engine.selector.unruled s.source root p →
          ∃ root' ∈ s.engine.settings.scan.roots,
            Walk.Reaches s.engine.selector.unruled s.source root' p ∧
            ∀ dir, root'.Between dir p → s.engine.selector.excludes dir true = false) := by
  have system : s.source.faults.SystemOnly := by simp [calm, Faults.SystemOnly]
  obtain ⟨seen, looked, sees⟩ := lookSees tree calm
  obtain ⟨w, walked, members, -⟩ := Walk.collectOnce s.engine.selector tree system
  have scanned : (s.engine.scanWorkspace s.source now).1 = (Engine.scanPaths { s.engine with scanning := true }
      s.source now w.found (Engine.walkErrors now w)).1 := by
    unfold Engine.scanWorkspace
    rw [idle, if_neg Bool.false_ne_true, walked]
  have shown : ∀ path, path ∈ seen.map Prod.fst ↔ ∃ p, p.text = path ∧ s.engine.selector.takes p = true ∧
      ∃ root ∈ s.engine.settings.scan.roots, Walk.Reaches s.engine.selector.unruled s.source root p := by
    intro path
    simp only [List.mem_map, sees]
    constructor
    · rintro ⟨_, ⟨p, stat, reached, taken, -, rfl⟩, rfl⟩
      exact ⟨p, rfl, taken, reached⟩
    · rintro ⟨p, rfl, taken, root, member, reaches⟩
      obtain ⟨-, content, mtime, file⟩ := reaches.isFile tree
      exact ⟨_, ⟨p, ⟨content.size, mtime⟩, ⟨root, member, reaches⟩, taken, by simp [Disk.fileStat?, file], rfl⟩, rfl⟩
  have listed : ∀ path, path ∈ w.found.map AbsPath.text ↔ ∃ p, p.text = path ∧
      ∃ root ∈ s.engine.settings.scan.roots, Walk.Reaches s.engine.selector s.source root p := by
    intro path
    simp only [List.mem_map, members]
    constructor
    · rintro ⟨p, reached, same⟩
      exact ⟨p, same, reached⟩
    · rintro ⟨p, same, reached⟩
      exact ⟨p, reached, same⟩
  have covered : ∀ path ∈ w.found.map AbsPath.text, path ∈ seen.map Prod.fst := by
    intro path member
    obtain ⟨p, same, root, known, reaches⟩ := (listed path).mp member
    exact (shown path).mpr ⟨p, same, reaches.taken, root, known, (Walk.reachesOpen.mp reaches).1⟩
  refine ⟨seen, w, looked, walked, scanned, covered, ?_⟩
  constructor
  · intro same root known p taken reaches
    have member : p.text ∈ w.found.map AbsPath.text :=
      (same p.text).mp ((shown p.text).mpr ⟨p, rfl, taken, root, known, reaches⟩)
    obtain ⟨q, texts, root', known', reaches'⟩ := (listed p.text).mp member
    obtain rfl := (reaches'.isFile tree).1.textInjective (reaches.isFile tree).1 texts
    obtain ⟨plain, -, free⟩ := Walk.reachesOpen.mp reaches'
    exact ⟨root', known', plain, free⟩
  · intro clear path
    refine ⟨fun member => ?_, covered path⟩
    obtain ⟨p, same, taken, root, known, reaches⟩ := (shown path).mp member
    obtain ⟨root', known', plain, free⟩ := clear root known p taken reaches
    have allowed : s.engine.selector.excludes p false = false := by
      rw [Selector.takesUnruled, Bool.and_eq_true, Bool.not_eq_true'] at taken
      exact taken.2
    exact (listed path).mpr ⟨p, same, root', known', Walk.reachesOpen.mpr ⟨plain, allowed, free⟩⟩

end

def excluding (glob : String) (nodes : List (AbsPath × Node)) : State :=
  { engine :=
      { settings := { Settings.default ⟨["w"]⟩ with scan := { roots := [⟨["w"]⟩], excludeGlobs := [glob] } } }
    source := { disk := { nodes } } }

def oneFolder : List (AbsPath × Node) :=
  [(⟨["w"]⟩, .dir), (⟨["w", "gen"]⟩, .dir), (⟨["w", "gen", "a.php"]⟩, .file "dd(1);".toUTF8 1)]

theorem excludedFolderWatched :
    (excluding "gen/" oneFolder).look = .ok [("/w/gen/a.php", 6, 1)] ∧
      (Walk.collect (excluding "gen/" oneFolder).engine.selector (excluding "gen/" oneFolder).source).map
        Walk.found = .ok [] ∧
      ((excluding "gen/" oneFolder).engine.scanWorkspace (excluding "gen/" oneFolder).source "t").1 = .ok {} := by
  decide +kernel

theorem excludedFilesUnwatched :
    ∃ seen w, (excluding "lib/**" Engine.twoFolders.disk.nodes).look = .ok seen ∧
      Walk.collect (excluding "lib/**" Engine.twoFolders.disk.nodes).engine.selector Engine.twoFolders = .ok w ∧
      (∀ path, path ∈ seen.map Prod.fst ↔ path ∈ w.found.map AbsPath.text) ∧
      ⟨["w", "app", "a.php"]⟩ ∈ w.found ∧ ⟨["w", "lib", "b.php"]⟩ ∉ w.found := by
  let s := excluding "lib/**" Engine.twoFolders.disk.nodes
  have taken : ∀ n ∈ Engine.twoFolders.disk.nodes, s.engine.selector.takes n.1 = true →
      n.1 = ⟨["w", "app", "a.php"]⟩ := by decide +kernel
  obtain ⟨seen, w, looked, walked, -, -, alike⟩ := @watchedScannedIff s "t" rfl Engine.twoFoldersTree rfl
  obtain ⟨w', walked', members, -⟩ := Walk.collectOnce s.engine.selector Engine.twoFoldersTree
    (by simp [Faults.SystemOnly, Engine.twoFolders])
  obtain rfl : w = w' := Except.ok.inj (walked.symm.trans walked')
  refine ⟨seen, w, looked, walked, alike.mpr ?_, (members _).mpr ⟨⟨["w"]⟩, by simp [s, excluding, Engine.selector],
    Engine.appReached (.inl rfl) (by decide +kernel) (by decide +kernel)⟩, ?_⟩
  · intro root known p allowed reaches
    refine ⟨root, known, reaches, fun dir between => ?_⟩
    obtain rfl : root = ⟨["w"]⟩ := by simpa [s, excluding] using known
    obtain ⟨n, present, rfl⟩ := reaches.node
    rw [taken n present allowed] at between
    have size : dir.names.length = 2 := by
      have lengths := between.length
      simp only [List.length_cons, List.length_nil] at lengths
      omega
    have names := List.prefix_iff_eq_take.mp between.above
    rw [size] at names
    rw [show dir = ⟨["w", "app"]⟩ from congrArg AbsPath.mk names]
    decide +kernel
  · intro member
    obtain ⟨root, -, reaches⟩ := (members _).mp member
    exact absurd reaches.taken (by decide +kernel)

end Watch.State
end DebugSweep
