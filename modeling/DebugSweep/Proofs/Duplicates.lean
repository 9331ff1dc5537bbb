import DebugSweep.Proofs.Anchors
import DebugSweep.Proofs.Walking
import DebugSweep.Settings.Merge
import Mathlib.Data.List.Dedup
import Mathlib.Data.List.Duplicate

/-! Findings that are reported twice. Main statement: a scan of the workspace counts each file once
exactly when no file is reached from two roots, and its findings differ in their identities exactly when
no file with findings is reached so and the findings of each file differ in their places. -/
namespace DebugSweep

theorem lastColon {left left' right right' : List Char} (plain : ':' ∉ right) (plain' : ':' ∉ right')
    (same : left ++ ':' :: right = left' ++ ':' :: right') : left = left' ∧ right = right' := by
  rcases List.append_eq_append_iff.mp same with ⟨more, rfl, split⟩ | ⟨more, rfl, split⟩
  · cases more with
    | nil => simpa using split
    | cons c more =>
      obtain ⟨-, split⟩ := List.cons.inj split
      exact absurd (split ▸ by simp) plain
  · cases more with
    | nil => simpa [eq_comm] using split
    | cons c more =>
      obtain ⟨-, split⟩ := List.cons.inj split
      exact absurd (split ▸ by simp) plain'

theorem Finding.idInjective {a b : String} {i j k l : Int} (same : idOf a i k = idOf b j l) :
    a = b ∧ i = j ∧ k = l := by
  have chars := congrArg String.toList same
  simp only [idOf, String.toList_append] at chars
  have split : ∀ path line column : List Char, path ++ ":".toList ++ line ++ ":".toList ++ column =
      (path ++ ':' :: line) ++ ':' :: column := by simp
  rw [split, split] at chars
  have noColon (n : Int) : ':' ∉ (toString n).toList := intFree rfl (by decide) n
  obtain ⟨front, columns⟩ := lastColon (noColon k) (noColon l) chars
  obtain ⟨paths, lines⟩ := lastColon (noColon i) (noColon j) front
  exact ⟨String.toList_inj.mp paths, intTextInjective lines, intTextInjective columns⟩

namespace Scan
open Lexis Text

theorem textIdentity {origin : Origin} {source : List Char} {f : Finding} (member : f ∈ text origin source) :
    f.id = Finding.idOf origin.filePath f.lineNumber f.column := by
  rw [textRows] at member
  obtain ⟨row, -, inside⟩ := List.mem_flatMap.mp member
  obtain ⟨m, -, found⟩ := List.mem_filterMap.mp inside
  exact (findingOrigin found).2

def place (f : Finding) : Int × Int := (f.lineNumber, f.column)

def SpelledOut (source : List Char) : Prop := ∀ row ∈ rows source, ∀ m ∈ row.statements, row.Spells m

instance (source : List Char) : Decidable (SpelledOut source) :=
  inferInstanceAs (Decidable (∀ row ∈ rows source, ∀ m ∈ row.statements, row.Spells m))

theorem Row.placesOnce {r : Row} (origin : Origin) (spelled : ∀ m ∈ r.statements, r.Spells m) :
    ((r.findings origin).map place).Nodup := by
  refine List.pairwise_map.mpr (List.pairwise_filterMap.mpr (r.leadingRising.imp_of_mem ?_))
  intro a b left right less f found g found' same
  have columnF := (spelledTells (spelled a left) found).2.2.column
  have columnG := (spelledTells (spelled b right) found').2.2.column
  have columns : f.column = g.column := congrArg Prod.snd same
  have anchors : r.anchor a = r.anchor b := by omega
  obtain rfl := anchorUnique left right anchors
  exact Nat.lt_irrefl _ less

theorem placesOnce {source : List Char} (origin : Origin) (spelled : SpelledOut source) :
    ((text origin source).map place).Nodup := by
  rw [textRows, List.map_flatMap, List.nodup_flatMap]
  refine ⟨fun row member => row.placesOnce origin (spelled row member), ?_⟩
  refine (rowsRising source).imp ?_
  intro a b less
  refine List.disjoint_left.mpr ?_
  intro place inA inB
  obtain ⟨f, member, rfl⟩ := List.mem_map.mp inA
  obtain ⟨g, member', same⟩ := List.mem_map.mp inB
  have numberF := (Row.findingShowsToken member).1
  have numberG := (Row.findingShowsToken member').1
  have lines : g.lineNumber = f.lineNumber := congrArg Prod.fst same
  omega

end Scan

namespace Settings

structure Usable (s : Settings) : Prop where
  workspace : s.workspaceRoot.Proper
  roots : ∀ root ∈ s.scan.roots, root.Proper
  batches : 0 < s.limits.batchSize

theorem resolveEach {here : AbsPath} {texts : List String} {places : List AbsPath} (proper : here.Proper)
    (resolved : texts.mapM (Path.resolve here) = .ok places) : ∀ p ∈ places, p.Proper := by
  intro p member
  obtain ⟨s, -, leads⟩ := mapSource resolved p member
  exact Path.resolveProper proper leads

theorem rootsProper {base : Settings} {fields : Fields} {roots : List AbsPath} (usable : base.Usable)
    (merged : mergeRoots base fields = .ok roots) : ∀ root ∈ roots, root.Proper := by
  unfold mergeRoots at merged
  split at merged
  · cases merged
    exact usable.roots
  · obtain ⟨texts, -, later⟩ := bindOkIff.mp merged
    split at later
    · contradiction
    · exact resolveEach usable.workspace later

theorem positiveIntPositive {value : Value} {name : String} {base cap n : Nat} (positive : 0 < base)
    (taken : positiveInt value name base cap = .ok n) : 0 < n := by
  unfold positiveInt at taken
  split at taken
  · cases taken
    exact positive
  · split at taken
    · contradiction
    · split at taken
      · contradiction
      · cases taken
        omega
  · contradiction

theorem scanRoots {base : Settings} {fields : Fields} {scan : ScanSettings}
    (merged : mergeScan base fields = .ok scan) : mergeRoots base fields = .ok scan.roots := by
  obtain ⟨roots, rooted, merged⟩ := bindOkIff.mp merged
  dsimp only at merged
  split at merged
  all_goals
    obtain ⟨_, -, merged⟩ := bindOkIff.mp merged
    obtain ⟨_, -, merged⟩ := bindOkIff.mp merged
    obtain ⟨_, -, merged⟩ := bindOkIff.mp merged
    cases merged
    exact rooted

theorem limitsPositive {base limits : Limits} {fields : Fields} (positive : 0 < base.batchSize)
    (merged : mergeLimits base fields = .ok limits) : 0 < limits.batchSize := by
  obtain ⟨_, -, merged⟩ := bindOkIff.mp merged
  obtain ⟨size, sized, merged⟩ := bindOkIff.mp merged
  obtain ⟨_, -, merged⟩ := bindOkIff.mp merged
  cases merged
  exact positiveIntPositive positive sized

theorem fileUsable {base s : Settings} {payload : Fields} (usable : base.Usable)
    (merged : mergeFile base payload = .ok s) : s.Usable := by
  -- The five sections come first.
  obtain ⟨_, -, merged⟩ := bindOkIff.mp merged
  obtain ⟨_, -, merged⟩ := bindOkIff.mp merged
  obtain ⟨_, -, merged⟩ := bindOkIff.mp merged
  obtain ⟨_, -, merged⟩ := bindOkIff.mp merged
  obtain ⟨_, -, merged⟩ := bindOkIff.mp merged
  obtain ⟨scan, scanned, merged⟩ := bindOkIff.mp merged
  obtain ⟨limits, limited, merged⟩ := bindOkIff.mp merged
  obtain ⟨_, -, merged⟩ := bindOkIff.mp merged
  obtain ⟨_, -, merged⟩ := bindOkIff.mp merged
  obtain ⟨_, -, merged⟩ := bindOkIff.mp merged
  cases merged
  exact ⟨usable.workspace, rootsProper usable (scanRoots scanned), limitsPositive usable.batches limited⟩

theorem overrideUsable {here : AbsPath} {base s : Settings} {o : Overrides} (usable : base.Usable)
    (merged : override here base o = .ok s) : s.Usable := by
  obtain ⟨_, -, merged⟩ := bindOkIff.mp merged
  obtain ⟨size, sized, merged⟩ := bindOkIff.mp merged
  obtain ⟨_, -, merged⟩ := bindOkIff.mp merged
  obtain ⟨_, -, merged⟩ := bindOkIff.mp merged
  dsimp only at merged
  split at merged
  all_goals
    obtain ⟨_, -, merged⟩ := bindOkIff.mp merged
    cases merged
    exact ⟨usable.workspace, usable.roots, positiveIntPositive usable.batches sized⟩

theorem mergeUsable {here : AbsPath} {base s : Settings} {payload : Fields} {o : Overrides}
    (usable : base.Usable) (accepted : merge here base payload o = .ok s) : s.Usable := by
  obtain ⟨filed, merged, overridden⟩ := bindOkIff.mp accepted
  exact overrideUsable (fileUsable usable merged) overridden

theorem defaultUsable {root : AbsPath} (proper : root.Proper) : (default root).Usable :=
  ⟨proper, by simpa [default] using proper, Nat.succ_pos 49⟩

end Settings

namespace Engine

section
variable {e : Engine} {source : Source} {paths : List AbsPath}

theorem findingsIdentity {settings : Settings} {p : AbsPath} {content : ByteArray} {f : Finding}
    (member : f ∈ findingsOf settings p content) : f.id = Finding.idOf p.text f.lineNumber f.column := by
  rw [findingsOf] at member
  rw [Scan.textIdentity member]

theorem scannedIdentity {p : AbsPath} {f : Finding} (member : f ∈ e.scannedFindings source p) :
    f.id = Finding.idOf p.text f.lineNumber f.column := by
  by_cases able : e.scannable source p = true
  · rw [scannedFindings, if_pos able, presentFindings] at member
    cases held : contentOf? source.disk p with
    | none =>
      rw [held] at member
      exact absurd member List.not_mem_nil
    | some content =>
      rw [held] at member
      exact findingsIdentity member
  · rw [scannedFindings, if_neg able] at member
    exact absurd member List.not_mem_nil

theorem idsOnceIff (p : AbsPath) : ((e.scannedFindings source p).map Finding.id).Nodup ↔
    ((e.scannedFindings source p).map Scan.place).Nodup := by
  refine List.pairwise_map.trans (Iff.trans (List.Pairwise.iff_of_mem ?_) List.pairwise_map.symm)
  intro f g left right
  rw [scannedIdentity left, scannedIdentity right, not_iff_not, Scan.place, Scan.place, Prod.mk.injEq]
  exact ⟨fun same => (Finding.idInjective same).2, fun same => by rw [same.1, same.2]⟩

-- Different files have different identities, so only a file that is listed twice can share one.
theorem idsApartIff (proper : ∀ p ∈ paths, p.Proper) :
    paths.Pairwise (Function.onFun List.Disjoint (fun p => (e.scannedFindings source p).map Finding.id)) ↔
      ∀ p, e.scannedFindings source p ≠ [] → paths.count p ≤ 1 := by
  rw [List.pairwise_iff_forall_sublist]
  constructor
  · intro apart p some
    by_contra many
    have twice : [p, p].Sublist paths := List.duplicate_iff_sublist.mp
      (List.duplicate_iff_two_le_count.mpr (by omega))
    obtain ⟨f, rest, filled⟩ := List.exists_cons_of_ne_nil some
    have member : f.id ∈ (e.scannedFindings source p).map Finding.id := by simp [filled]
    exact List.disjoint_left.mp (apart twice) member member
  · intro few p q pair
    refine List.disjoint_left.mpr ?_
    intro id inP inQ
    obtain ⟨f, member, rfl⟩ := List.mem_map.mp inP
    obtain ⟨g, member', same⟩ := List.mem_map.mp inQ
    rw [scannedIdentity member, scannedIdentity member'] at same
    have texts := (Finding.idInjective same).1
    obtain rfl := (proper q (pair.subset (by simp))).textInjective (proper p (pair.subset (by simp))) texts
    have twice := List.duplicate_iff_two_le_count.mp (List.duplicate_iff_sublist.mpr pair)
    have once := few q (List.ne_nil_of_mem member)
    omega

theorem foundIdsOnceIff (proper : ∀ p ∈ paths, p.Proper) :
    ((paths.flatMap (e.scannedFindings source)).map Finding.id).Nodup ↔
      (∀ p, e.scannedFindings source p ≠ [] → paths.count p ≤ 1) ∧
        ∀ p ∈ paths, ((e.scannedFindings source p).map Scan.place).Nodup := by
  rw [List.map_flatMap, List.nodup_flatMap, idsApartIff proper, and_comm]
  simp only [idsOnceIff]

end

section
variable {e : Engine} {source : Source}

theorem scanWorkspaceGathers {w : Walk} (now : String) (idle : e.scanning = false)
    (correct : e.Correct source.disk) (system : source.faults.SystemOnly)
    (sized : 0 < e.settings.limits.batchSize) (proper : ∀ p ∈ w.found, p.Proper)
    (walked : Walk.collect e.selector source = .ok w) :
    ∃ result, (e.scanWorkspace source now).1 = .ok result ∧ result.scannedFiles = w.found.length ∧
      result.findings.Perm (w.found.flatMap (e.scannedFindings source)) := by
  have running : ∀ p, (Engine.scanFile { e with scanning := true } source p).1 = (e.scanFile source p).1 :=
    fun p => SameView.outcome ⟨rfl, rfl, fun _ => rfl, rfl, rfl⟩
  have gathered := scanPathsGathers (e := { e with scanning := true }) now (walkErrors now w) sized proper
    (fun p member => running p ▸ scanFileCoded correct system (proper p member))
  simp only [running] at gathered
  rw [allScanned correct system proper] at gathered
  have scanned : (e.scanWorkspace source now).1 =
      (scanPaths { e with scanning := true } source now w.found (walkErrors now w)).1 := by
    unfold scanWorkspace
    rw [idle, if_neg Bool.false_ne_true, walked]
  exact ⟨_, scanned.trans gathered, rfl, List.mergeSort_perm _ _⟩

theorem rootsApart {roots : List AbsPath} (sel : Selector) (source : Source)
    (apart : roots.Pairwise (fun a b => ¬ a.names <+: b.names ∧ ¬ b.names <+: a.names)) :
    roots.Pairwise (fun a b => ∀ p, Walk.Reaches sel source a p → ¬ Walk.Reaches sel source b p) := by
  refine apart.imp ?_
  intro a b separate p viaA viaB
  obtain ⟨name, more, namesA⟩ := viaA.strictlyBelow
  obtain ⟨name', more', namesB⟩ := viaB.strictlyBelow
  rcases List.prefix_or_prefix_of_prefix ⟨_, namesA.symm⟩ ⟨_, namesB.symm⟩ with first | second
  · exact separate.1 first
  · exact separate.2 second

theorem scannedPlacesOnce {p : AbsPath}
    (spelled : ∀ content, contentOf? source.disk p = some content → Scan.SpelledOut (Source.textOf content)) :
    ((e.scannedFindings source p).map Scan.place).Nodup := by
  by_cases able : e.scannable source p = true
  · rw [scannedFindings, if_pos able, presentFindings]
    cases held : contentOf? source.disk p with
    | none => exact List.nodup_nil
    | some content => exact Scan.placesOnce _ (spelled content held)
  · rw [scannedFindings, if_neg able]
    exact List.nodup_nil

end

structure Accounts (e : Engine) (source : Source) (result : ScanResult) (files : List AbsPath) : Prop where
  once : files.Nodup
  reached : ∀ p, p ∈ files ↔ ∃ root ∈ e.settings.scan.roots, Walk.Reaches e.selector source root p
  counted : result.scannedFiles = files.length ↔ e.settings.scan.roots.Pairwise (fun a b =>
    ∀ p, Walk.Reaches e.selector source a p → ¬ Walk.Reaches e.selector source b p)
  identified : (result.findings.map Finding.id).Nodup ↔
    e.settings.scan.roots.Pairwise (fun a b => ∀ p, Walk.Reaches e.selector source a p →
      Walk.Reaches e.selector source b p → e.scannedFindings source p = []) ∧
    ∀ p ∈ files, ((e.scannedFindings source p).map Scan.place).Nodup

theorem Accounts.distinct {e : Engine} {source : Source} {result : ScanResult} {files : List AbsPath}
    (accounts : e.Accounts source result files)
    (apart : e.settings.scan.roots.Pairwise (fun a b => ¬ a.names <+: b.names ∧ ¬ b.names <+: a.names))
    (spelled : ∀ p ∈ files, ∀ content, contentOf? source.disk p = some content →
      Scan.SpelledOut (Source.textOf content)) :
    result.scannedFiles = files.length ∧ (result.findings.map Finding.id).Nodup := by
  have unshared := rootsApart e.selector source apart
  refine ⟨accounts.counted.mpr unshared, accounts.identified.mpr ⟨?_, ?_⟩⟩
  · exact unshared.imp (fun separate p viaA viaB => absurd viaB (separate p viaA))
  · exact fun p member => scannedPlacesOnce (spelled p member)

theorem usableAccounts {e : Engine} {source : Source} (now : String) (usable : e.settings.Usable)
    (tree : source.disk.Tree) (system : source.faults.SystemOnly) (idle : e.scanning = false)
    (correct : e.Correct source.disk) :
    ∃ result files, (e.scanWorkspace source now).1 = .ok result ∧ e.Accounts source result files := by
  obtain ⟨w, walked, members, once⟩ := Walk.collectOnce e.selector tree system
  have rooted : e.selector.roots = e.settings.scan.roots := rfl
  rw [rooted] at members once
  have proper : ∀ p ∈ w.found, p.Proper := by
    intro p member
    obtain ⟨root, -, reaches⟩ := (members p).mp member
    obtain ⟨n, present, rfl⟩ := reaches.node
    exact tree.proper n present
  obtain ⟨result, scanned, counted, found⟩ :=
    scanWorkspaceGathers now idle correct system usable.batches proper walked
  refine ⟨result, w.found.dedup, scanned, List.nodup_dedup _, fun p => List.mem_dedup.trans (members p), ?_, ?_⟩
  · have same : w.found.length = w.found.dedup.length ↔ w.found.Nodup := by
      rw [← List.dedup_eq_self]
      exact ⟨fun sizes => (List.dedup_sublist _).eq_of_length sizes.symm, fun same => by rw [same]⟩
    rw [counted, same, List.nodup_iff_count_le_one]
    simpa using once (fun _ => True)
  · rw [(found.map Finding.id).nodup_iff, foundIdsOnceIff proper, once]
    simp only [List.mem_dedup, not_not, ne_eq]

theorem workspaceScannedOnceIff {here : AbsPath} {base : Settings} {payload : Settings.Fields}
    {o : Settings.Overrides} {e : Engine} {source : Source} (now : String) (usable : base.Usable)
    (accepted : Settings.merge here base payload o = .ok e.settings) (tree : source.disk.Tree)
    (system : source.faults.SystemOnly) (idle : e.scanning = false) (correct : e.Correct source.disk) :
    ∃ result files, (e.scanWorkspace source now).1 = .ok result ∧ e.Accounts source result files ∧
      (e.settings.scan.roots.Pairwise (fun a b => ¬ a.names <+: b.names ∧ ¬ b.names <+: a.names) →
        (∀ p ∈ files, ∀ content, contentOf? source.disk p = some content →
          Scan.SpelledOut (Source.textOf content)) →
        result.scannedFiles = files.length ∧ (result.findings.map Finding.id).Nodup) := by
  obtain ⟨result, files, scanned, accounts⟩ :=
    usableAccounts now (Settings.mergeUsable usable accepted) tree system idle correct
  exact ⟨result, files, scanned, accounts, accounts.distinct⟩

def rooted (roots : List AbsPath) : Settings :=
  { Settings.default ⟨["w"]⟩ with scan := { roots } }

def rootsField (roots : List String) : Settings.Fields :=
  [("scan", .record [("roots", Value.ofTexts roots)])]

def twoFolders : Source :=
  { disk :=
      { nodes := [(⟨["w"]⟩, .dir), (⟨["w", "app"]⟩, .dir),
          (⟨["w", "app", "a.php"]⟩, .file "dd(1);".toUTF8 1), (⟨["w", "lib"]⟩, .dir),
          (⟨["w", "lib", "b.php"]⟩, .file "dd(2); echo 3;".toUTF8 1)] } }

theorem twoFoldersTree : twoFolders.disk.Tree := ⟨by decide +kernel, by simp [twoFolders]; decide +kernel⟩

theorem twoFoldersSpelled {p : AbsPath} {content : ByteArray}
    (held : contentOf? twoFolders.disk p = some content) : Scan.SpelledOut (Source.textOf content) := by
  obtain ⟨mtime, node⟩ : ∃ mtime, twoFolders.disk.get? p = some (.file content mtime) := by
    unfold contentOf? at held
    split at held
    · cases held
      exact ⟨_, by assumption⟩
    · contradiction
  have deep : p.names ≠ [] := fun top => by simp [Disk.get?, top] at node
  have member : (.file content mtime) ∈ twoFolders.disk.nodes.map Prod.snd :=
    List.mem_map.mpr ⟨_, Disk.nodeFound node deep, rfl⟩
  rcases (by simpa [twoFolders] using member : _ ∨ _) with ⟨rfl, -⟩ | ⟨rfl, -⟩
  · decide +kernel
  · decide +kernel

theorem separateRootsOnce :
    ∃ (result : ScanResult) (files : List AbsPath),
      (scanWorkspace { settings := rooted [⟨["w", "app"]⟩, ⟨["w", "lib"]⟩] } twoFolders "t").1 = .ok result ∧
        files.Nodup ∧ result.scannedFiles = files.length ∧ (result.findings.map Finding.id).Nodup := by
  have accepted : Settings.merge ⟨["w"]⟩ (Settings.default ⟨["w"]⟩) (rootsField ["app", "./lib"]) {} =
      .ok (rooted [⟨["w", "app"]⟩, ⟨["w", "lib"]⟩]) := by decide +kernel
  obtain ⟨result, files, scanned, accounts, distinct⟩ :=
    workspaceScannedOnceIff "t" (Settings.defaultUsable (by decide)) accepted twoFoldersTree
      (by simp [Faults.SystemOnly, twoFolders]) rfl (uncached _ _)
  exact ⟨result, files, scanned, accounts.once, distinct (by decide) (fun p _ content => twoFoldersSpelled)⟩

theorem appReached {sel : Selector} {root : AbsPath} (known : root = ⟨["w"]⟩ ∨ root = ⟨["w", "app"]⟩)
    (entered : sel.enters ⟨["w", "app"]⟩ = true) (taken : sel.takes ⟨["w", "app", "a.php"]⟩ = true) :
    Walk.Reaches sel twoFolders root ⟨["w", "app", "a.php"]⟩ := by
  have inside : Walk.Reaches sel twoFolders ⟨["w", "app"]⟩ ⟨["w", "app", "a.php"]⟩ := by
    have listed : twoFolders.listDir ⟨["w", "app"]⟩ = .ok [("a.php", .file)] := by decide +kernel
    exact .file listed (by simp) taken
  rcases known with rfl | rfl
  · obtain ⟨entries, listed⟩ : ∃ entries, twoFolders.listDir ⟨["w"]⟩ = .ok entries := ⟨_, rfl⟩
    have member : ("app", .dir) ∈ entries :=
      (Walk.listedPerm listed).mem_iff.mpr (by decide +kernel)
    exact .deeper listed member entered inside
  · exact inside

theorem overlappingRootsRepeat :
    Settings.merge ⟨["w"]⟩ (Settings.default ⟨["w"]⟩) (rootsField [".", "app"]) {} =
      .ok (rooted [⟨["w"]⟩, ⟨["w", "app"]⟩]) ∧
    ∃ (result : ScanResult) (files : List AbsPath),
      (scanWorkspace { settings := rooted [⟨["w"]⟩, ⟨["w", "app"]⟩] } twoFolders "t").1 = .ok result ∧
        files.Nodup ∧ (∀ p, p ∈ files ↔ ∃ root ∈ [⟨["w"]⟩, ⟨["w", "app"]⟩],
          Walk.Reaches (selector { settings := rooted [⟨["w"]⟩, ⟨["w", "app"]⟩] }) twoFolders root p) ∧
        result.scannedFiles ≠ files.length ∧ ¬ (result.findings.map Finding.id).Nodup := by
  have usable : (rooted [⟨["w"]⟩, ⟨["w", "app"]⟩]).Usable := ⟨by decide, by decide, by decide⟩
  obtain ⟨result, files, scanned, accounts⟩ :=
    usableAccounts (e := { settings := rooted [⟨["w"]⟩, ⟨["w", "app"]⟩] }) "t" usable twoFoldersTree
      (by simp [Faults.SystemOnly, twoFolders]) rfl (uncached _ _)
  have reached : ∀ root, root = ⟨["w"]⟩ ∨ root = ⟨["w", "app"]⟩ →
      Walk.Reaches (selector { settings := rooted [⟨["w"]⟩, ⟨["w", "app"]⟩] }) twoFolders root
        ⟨["w", "app", "a.php"]⟩ :=
    fun root known => appReached known (by decide +kernel) (by decide +kernel)
  refine ⟨by decide +kernel, result, files, scanned, accounts.once, accounts.reached, ?_, ?_⟩
  · intro same
    have apart := List.rel_of_pairwise_cons (accounts.counted.mp same) List.mem_cons_self
    exact apart _ (reached _ (.inl rfl)) (reached _ (.inr rfl))
  · intro distinct
    have apart := List.rel_of_pairwise_cons (accounts.identified.mp distinct).1 List.mem_cons_self
    have none := apart _ (reached _ (.inl rfl)) (reached _ (.inr rfl))
    exact absurd none (by decide +kernel)

end Engine
end DebugSweep
