import DebugSweep.Proofs.Places
import DebugSweep.Proofs.Transparency
import Mathlib.Data.List.Sort

/-! Scans of many files. Main statements: scanning one file does not change what scanning any file gives,
so a scan in batches of any size gathers what each file gives alone; and a scan of given paths is one of
the distinct eligible files among them, in order of their paths. -/
namespace DebugSweep

def Faults.SystemOnly (f : Faults) : Prop :=
  ∀ entry ∈ f.listDir ++ f.stat ++ f.readText, ∃ errno reason, entry.2 = .os errno reason

theorem troubledSystem {table : List (String × Trouble)} {path : String} {fault : Fault}
    (only : ∀ entry ∈ table, ∃ errno reason, entry.2 = .os errno reason)
    (troubled : Source.troubled table path = .error fault) : ∃ failure, fault = .os failure := by
  unfold Source.troubled at troubled
  split at troubled
  · cases troubled
    exact ⟨_, rfl⟩
  · rename_i text found
    obtain ⟨errno, reason, same⟩ := only _ (List.mem_of_find?_eq_some found)
    contradiction
  · contradiction

section
variable {source : Source} {p : AbsPath} {fault : Fault}

theorem statSystem (only : source.faults.SystemOnly) (failed : source.stat p = .error fault) :
    ∃ failure, fault = .os failure := by
  unfold Source.stat at failed
  cases trouble : Source.troubled source.faults.stat p.text with
  | error cause =>
    rw [trouble] at failed
    cases failed
    exact troubledSystem (fun entry member => only entry (by simp [member])) trouble
  | ok none =>
    rw [trouble] at failed
    unfold Disk.find at failed
    cases node : source.disk.get? p with
    | none =>
      rw [node] at failed
      cases failed
      exact ⟨_, rfl⟩
    | some node' =>
      rw [node] at failed
      cases node' <;> contradiction

theorem textSystem (only : source.faults.SystemOnly) (failed : (source.readText p).1 = .error fault) :
    ∃ failure, fault = .os failure := by
  unfold Source.readText at failed
  dsimp only at failed
  cases trouble : Source.troubled source.faults.readText p.text with
  | error cause =>
    rw [trouble] at failed
    cases failed
    exact troubledSystem (fun entry member => only entry (by simp [member])) trouble
  | ok none =>
    rw [trouble] at failed
    cases held : source.disk.read p with
    | error failure =>
      rw [held] at failed
      cases failed
      exact ⟨failure, rfl⟩
    | ok content =>
      rw [held] at failed
      contradiction

end

namespace Cache

theorem getDiscardSame (c : Cache) (path : String) : (c.discard path).get? path = none := by
  simp [get?, discard]

theorem getDiscardOther {path other : String} (c : Cache) (apart : other ≠ path) :
    (c.discard path).get? other = c.get? other := by
  unfold get? discard
  rw [List.find?_filter]
  congr 1
  funext entry
  by_cases here : entry.path = other
  · simp [here, apart]
  · simp [here]

theorem lookupDiscardSame (c : Cache) (path mark : String) : (c.discard path).lookup? path mark = none := by
  simp [lookup?, getDiscardSame]

theorem lookupDiscardOther {path other : String} (c : Cache) (mark : String) (apart : other ≠ path) :
    (c.discard path).lookup? other mark = c.lookup? other mark := by
  simp only [lookup?, getDiscardOther c apart]

theorem lookupStoreSame (c : Cache) (path : String) (size mtime : Int) (findings : List Finding) :
    (c.store path size mtime findings).lookup? path (fingerprint size mtime) = some findings := by
  simp [lookup?, store, get?]

theorem lookupStoreOther {path other : String} (c : Cache) (size mtime : Int) (findings : List Finding)
    (mark : String) (apart : other ≠ path) :
    (c.store path size mtime findings).lookup? other mark = c.lookup? other mark := by
  have skipped : (c.store path size mtime findings).get? other = (c.discard path).get? other := by
    simp [store, get?, apart.symm]
  simp only [lookup?, skipped, getDiscardOther c apart]

end Cache

namespace Engine

structure SameView (e e' : Engine) (source source' : Source) (p : AbsPath) : Prop where
  limit : e'.settings.limits.maxFileBytes = e.settings.limits.maxFileBytes
  scan : e'.settings.scan = e.settings.scan
  known : ∀ mark, e'.cache.lookup? p.text mark = e.cache.lookup? p.text mark
  disk : source'.disk = source.disk
  faults : source'.faults = source.faults

section
variable {e e' : Engine} {source source' : Source} {p : AbsPath}

theorem SameView.stat (same : SameView e e' source source' p) (q : AbsPath) :
    source'.stat q = source.stat q := by
  unfold Source.stat
  rw [same.disk, same.faults]

theorem SameView.readText (same : SameView e e' source source' p) (q : AbsPath) :
    (source'.readText q).1 = (source.readText q).1 := by
  unfold Source.readText
  dsimp only
  rw [same.disk, same.faults]

theorem SameView.outcome (same : SameView e e' source source' p) :
    (e'.scanFile source' p).1 = (e.scanFile source p).1 := by
  have stats := same.stat p
  cases sized : source.stat p with
  | error fault =>
    rw [scanFileUnsized sized, scanFileUnsized (stats.trans sized), failedReported, failedReported]
  | ok stat =>
    by_cases large : e.settings.limits.maxFileBytes < stat.size
    · rw [scanFileLarge sized large, scanFileLarge (stats.trans sized) (same.limit ▸ large), same.limit]
    · have small : ¬ e'.settings.limits.maxFileBytes < stat.size := same.limit ▸ large
      have known := same.known (fingerprint stat.size stat.mtime)
      cases hit : e.cache.lookup? p.text (fingerprint stat.size stat.mtime) with
      | some findings =>
        rw [scanFileHit sized large hit, scanFileHit (stats.trans sized) small (known.trans hit)]
      | none =>
        rw [scanFileMiss sized large hit, scanFileMiss (stats.trans sized) small (known.trans hit),
          same.readText]
        cases read : (source.readText p).1 with
        | error fault =>
          change (e'.failed p fault).1 = (e.failed p fault).1
          rw [failedReported, failedReported]
        | ok text => simp [absorb, relativePath, Settings.rootTexts, same.scan]

/-- The engine and the source give every file the same outcome as those at the start. -/
structure Steady (e : Engine) (source : Source) (e' : Engine) (source' : Source) : Prop where
  settings : e'.settings = e.settings
  disk : source'.disk = source.disk
  faults : source'.faults = source.faults
  outcome : ∀ p : AbsPath, p.Proper → (e'.scanFile source' p).1 = (e.scanFile source p).1

theorem Steady.trans {e'' : Engine} {source'' : Source} (first : Steady e source e' source')
    (second : Steady e' source' e'' source'') : Steady e source e'' source'' :=
  ⟨second.settings.trans first.settings, second.disk.trans first.disk,
    second.faults.trans first.faults,
    fun p proper => (second.outcome p proper).trans (first.outcome p proper)⟩

theorem steadyOf (settings : e'.settings = e.settings) (disk : source'.disk = source.disk)
    (faults : source'.faults = source.faults) (proper : p.Proper)
    (others : ∀ path mark, path ≠ p.text → e'.cache.lookup? path mark = e.cache.lookup? path mark)
    (itself : (e'.scanFile source' p).1 = (e.scanFile source p).1) : Steady e source e' source' := by
  refine ⟨settings, disk, faults, ?_⟩
  intro q proper'
  by_cases here : q = p
  · rw [here]
    exact itself
  · have apart : q.text ≠ p.text := fun same => here (proper'.textInjective proper same)
    have same : SameView e e' source source' q :=
      ⟨by rw [settings], by rw [settings], fun mark => others q.text mark apart, disk, faults⟩
    exact same.outcome

theorem refusedSteady (proper : p.Proper) (disk : source'.disk = source.disk)
    (faults : source'.faults = source.faults)
    (itself : (Engine.scanFile { e with cache := e.cache.discard p.text } source' p).1 =
      (e.scanFile source p).1) :
    Steady e source { e with cache := e.cache.discard p.text } source' :=
  steadyOf rfl disk faults proper (fun _ mark apart => Cache.lookupDiscardOther e.cache mark apart) itself

theorem failedSteady {fault : Fault} (proper : p.Proper) (disk : source'.disk = source.disk)
    (faults : source'.faults = source.faults)
    (itself : ((e.failed p fault).2.scanFile source' p).1 = (e.scanFile source p).1) :
    Steady e source (e.failed p fault).2 source' := by
  unfold failed at itself ⊢
  split at itself
  · exact refusedSteady proper disk faults itself
  · exact steadyOf rfl disk faults proper (fun _ _ _ => rfl) itself

theorem failedFields (e : Engine) (p : AbsPath) (fault : Fault) :
    (e.failed p fault).2.settings = e.settings ∧
      ∀ mark, e.cache.lookup? p.text mark = none → (e.failed p fault).2.cache.lookup? p.text mark = none := by
  unfold failed
  split
  · exact ⟨rfl, fun mark _ => Cache.lookupDiscardSame e.cache p.text mark⟩
  · exact ⟨rfl, fun mark miss => miss⟩

theorem absorbSteady {stat : FileStat} (proper : p.Proper) (sized : source.stat p = .ok stat)
    (small : ¬ e.settings.limits.maxFileBytes < stat.size)
    (miss : e.cache.lookup? p.text (fingerprint stat.size stat.mtime) = none) :
    Steady e source (e.absorb p stat (source.readText p).1).2 (source.readText p).2 := by
  have again : (source.readText p).2.stat p = .ok stat := sized
  have first := scanFileMiss sized small miss
  cases read : (source.readText p).1 with
  | error fault =>
    obtain ⟨settings, forgotten⟩ := failedFields e p fault
    refine failedSteady proper rfl rfl ?_
    rw [first, scanFileMiss again (settings ▸ small) (forgotten _ miss)]
    have reread : ((source.readText p).2.readText p).1 = .error fault := read
    rw [reread, read]
    change (Engine.failed _ p fault).1 = (e.failed p fault).1
    rw [failedReported, failedReported]
  | ok text =>
    refine steadyOf rfl rfl rfl proper ?_ ?_
    · exact fun path mark apart => Cache.lookupStoreOther e.cache _ _ _ mark apart
    · have stored : (e.absorb p stat (.ok text)).2.cache.lookup? p.text
          (fingerprint stat.size stat.mtime) = _ := Cache.lookupStoreSame e.cache _ _ _ _
      rw [first, scanFileHit again (by exact small) stored, read]
      rfl

theorem scanFileSteady (e : Engine) (source : Source) (proper : p.Proper) :
    Steady e source (e.scanFile source p).2.1 (e.scanFile source p).2.2 := by
  cases sized : source.stat p with
  | error fault =>
    rw [scanFileUnsized sized]
    refine failedSteady proper rfl rfl ?_
    rw [scanFileUnsized sized, scanFileUnsized sized, failedReported, failedReported]
  | ok stat =>
    by_cases large : e.settings.limits.maxFileBytes < stat.size
    · rw [scanFileLarge sized large]
      refine refusedSteady proper rfl rfl ?_
      rw [scanFileLarge sized large, scanFileLarge sized (by exact large)]
    · cases hit : e.cache.lookup? p.text (fingerprint stat.size stat.mtime) with
      | some findings =>
        rw [scanFileHit sized large hit]
        exact ⟨rfl, rfl, rfl, fun _ _ => rfl⟩
      | none =>
        rw [scanFileMiss sized large hit]
        exact absorbSteady proper sized large hit

theorem scanBatchSteady {paths : List AbsPath} (steady : Steady e source e' source')
    (proper : ∀ p ∈ paths, p.Proper) (done : List Outcome) :
    (e'.scanBatch source' done paths).1 = done.reverse ++ paths.map (fun p => (e.scanFile source p).1) ∧
      Steady e source (e'.scanBatch source' done paths).2.1 (e'.scanBatch source' done paths).2.2 := by
  induction paths generalizing e' source' done with
  | nil => exact ⟨by simp [scanBatch], steady⟩
  | cons p rest ih =>
    have here : p.Proper := proper p List.mem_cons_self
    have next := steady.trans (scanFileSteady e' source' here)
    obtain ⟨outcomes, last⟩ := ih next (fun q member => proper q (List.mem_cons_of_mem _ member))
      ((e'.scanFile source' p).1 :: done)
    refine ⟨?_, last⟩
    rw [scanBatch, outcomes, steady.outcome p here]
    simp

end

def found : Outcome → List Finding
  | .ok findings => findings
  | .error _ => []

def trouble (now : String) (p : AbsPath) : Outcome → Option ScanError
  | .ok _ => none
  | .error fault => errorOf now p fault

def Coded (outcome : Outcome) : Prop := ∀ fault, outcome = .error fault → fault.code?.isSome = true

theorem addCoded {now : String} {outcome : AbsPath → Outcome} {paths : List AbsPath} (tally : Tally)
    (coded : ∀ p ∈ paths, Coded (outcome p)) :
    tally.add now (paths.map (fun p => (p, outcome p))) =
      .ok ⟨(paths.flatMap (fun p => found (outcome p))).reverse ++ tally.findings,
        (paths.filterMap (fun p => trouble now p (outcome p))).reverse ++ tally.errors⟩ := by
  induction paths generalizing tally with
  | nil => rfl
  | cons p rest ih =>
    have fewer : ∀ q ∈ rest, Coded (outcome q) := fun q member => coded q (List.mem_cons_of_mem _ member)
    rw [List.map_cons]
    cases scanned : outcome p with
    | ok findings =>
      rw [Tally.add, ih _ fewer]
      simp [scanned, found, trouble]
    | error fault =>
      obtain ⟨code, known⟩ := Option.isSome_iff_exists.mp (coded p List.mem_cons_self fault scanned)
      have entry : errorOf now p fault = some ⟨p.text, fault.message, code, now⟩ := by
        simp [errorOf, known]
      rw [Tally.add, entry]
      dsimp only
      rw [ih _ fewer]
      simp [scanned, found, trouble, entry]

section
variable {e e' : Engine} {source source' : Source}

theorem scanBatchesSteady {paths : List AbsPath} {fuel : Nat} (now : String) (tally : Tally)
    (steady : Steady e source e' source') (sized : 0 < e.settings.limits.batchSize)
    (proper : ∀ p ∈ paths, p.Proper) (coded : ∀ p ∈ paths, Coded (e.scanFile source p).1)
    (enough : paths.length ≤ fuel) :
    (e'.scanBatches source' now tally fuel paths).1 =
      .ok ⟨(paths.flatMap (fun p => found (e.scanFile source p).1)).reverse ++ tally.findings,
        (paths.filterMap (fun p => trouble now p (e.scanFile source p).1)).reverse ++ tally.errors⟩ := by
  induction fuel generalizing e' source' tally paths with
  | zero =>
    obtain rfl : paths = [] := List.eq_nil_of_length_eq_zero (Nat.le_zero.mp enough)
    rfl
  | succ fuel ih =>
    cases filled : paths with
    | nil => rfl
    | cons p rest =>
      rw [scanBatches, ← filled, steady.settings]
      dsimp only
      obtain ⟨front, later⟩ : (∀ q ∈ paths.take e.settings.limits.batchSize, q ∈ paths) ∧
          ∀ q ∈ paths.drop e.settings.limits.batchSize, q ∈ paths :=
        ⟨fun q member => List.mem_of_mem_take member, fun q member => List.mem_of_mem_drop member⟩
      obtain ⟨outcomes, next⟩ := scanBatchSteady steady (fun q member => proper q (front q member)) []
      have pairs : (paths.take e.settings.limits.batchSize).zip
          (e'.scanBatch source' [] (paths.take e.settings.limits.batchSize)).1 =
          (paths.take e.settings.limits.batchSize).map (fun q => (q, (e.scanFile source q).1)) := by
        rw [outcomes, List.reverse_nil, List.nil_append, List.map_prod_left_eq_zip]
      rw [pairs, addCoded tally (fun q member => coded q (front q member))]
      dsimp only
      have fewer : (paths.drop e.settings.limits.batchSize).length ≤ fuel := by
        rw [List.length_drop]
        omega
      rw [ih _ next (fun q member => proper q (later q member)) (fun q member => coded q (later q member))
        fewer]
      have joined := List.take_append_drop e.settings.limits.batchSize paths
      congr 2
      · conv_rhs => rw [← joined, List.flatMap_append, List.reverse_append]
        simp
      · conv_rhs => rw [← joined, List.filterMap_append, List.reverse_append]
        simp

theorem scanPathsGathers {paths : List AbsPath} (now : String) (prior : List ScanError)
    (sized : 0 < e.settings.limits.batchSize) (proper : ∀ p ∈ paths, p.Proper)
    (coded : ∀ p ∈ paths, Coded (e.scanFile source p).1) :
    (e.scanPaths source now paths prior).1 =
      .ok (ScanResult.ofParts (paths.flatMap (fun p => found (e.scanFile source p).1)) paths.length
        (prior ++ paths.filterMap (fun p => trouble now p (e.scanFile source p).1))) := by
  have start : Steady e source e source := ⟨rfl, rfl, rfl, fun _ _ => rfl⟩
  have gathered := scanBatchesSteady now { errors := prior.reverse } start sized proper coded
    (Nat.le_refl _)
  unfold scanPaths
  dsimp only
  rw [gathered]
  simp [Except.map, Tally.result]

end

def presentFindings (settings : Settings) (d : Disk) (p : AbsPath) : List Finding :=
  match contentOf? d p with
  | some content => findingsOf settings p content
  | none => []

def scannable (e : Engine) (source : Source) (p : AbsPath) : Bool :=
  match source.stat p with
  | .ok stat =>
      decide (stat.size ≤ e.settings.limits.maxFileBytes) &&
        ((e.cache.lookup? p.text (fingerprint stat.size stat.mtime)).isSome ||
          (source.readText p).1.isOk)
  | .error _ => false

def scannedFindings (e : Engine) (source : Source) (p : AbsPath) : List Finding :=
  if e.scannable source p then presentFindings e.settings source.disk p else []

/-- What the cache would answer for a file is what scanning it would find. -/
def Correct (e : Engine) (d : Disk) : Prop :=
  ∀ p : AbsPath, p.Proper → ∀ stat findings, statOf? d p = some stat →
    e.cache.lookup? p.text (fingerprint stat.size stat.mtime) = some findings →
    ∃ content, contentOf? d p = some content ∧ findings = findingsOf e.settings p content

theorem uncached (settings : Settings) (d : Disk) : Correct { settings } d := by
  intro p _ stat findings _ hit
  simp [Cache.lookup?, Cache.get?] at hit

section
variable {e : Engine} {source : Source} {p : AbsPath}

theorem refusedCoded {fault : Fault} (system : ∃ failure, fault = .os failure) :
    (reported fault).code?.isSome = true := by
  obtain ⟨failure, rfl⟩ := system
  rfl

theorem scannedWhenScannable (correct : e.Correct source.disk) (proper : p.Proper)
    (able : e.scannable source p = true) :
    (e.scanFile source p).1 = .ok (presentFindings e.settings source.disk p) := by
  unfold scannable at able
  cases sized : source.stat p with
  | error fault =>
    rw [sized] at able
    contradiction
  | ok stat =>
    rw [sized, Bool.and_eq_true, decide_eq_true_eq] at able
    have small : ¬ e.settings.limits.maxFileBytes < stat.size := Nat.not_lt.mpr able.1
    cases hit : e.cache.lookup? p.text (fingerprint stat.size stat.mtime) with
    | some findings =>
      obtain ⟨content, held, rfl⟩ := correct p proper stat findings (statFound sized) hit
      rw [scanFileHit sized small hit, presentFindings, held]
    | none =>
      rw [scanFileMiss sized small hit]
      cases read : (source.readText p).1 with
      | error fault => simp [hit, read, Except.isOk, Except.toBool] at able
      | ok text =>
        obtain ⟨content, held, rfl⟩ := textFound read
        rw [presentFindings, held]
        rfl

theorem refusedWhenUnscannable (system : source.faults.SystemOnly) (unable : e.scannable source p = false) :
    ∃ fault, (e.scanFile source p).1 = .error fault ∧ fault.code?.isSome = true := by
  unfold scannable at unable
  cases sized : source.stat p with
  | error fault =>
    rw [scanFileUnsized sized, failedReported]
    exact ⟨_, rfl, refusedCoded (statSystem system sized)⟩
  | ok stat =>
    by_cases large : e.settings.limits.maxFileBytes < stat.size
    · rw [scanFileLarge sized large]
      exact ⟨_, rfl, rfl⟩
    · simp only [sized, Nat.not_lt.mp large, decide_true, Bool.true_and, Bool.or_eq_false_iff,
        Option.isSome_eq_false_iff, Option.isNone_iff_eq_none] at unable
      rw [scanFileMiss sized large unable.1]
      cases read : (source.readText p).1 with
      | error fault => exact ⟨_, failedReported e p fault, refusedCoded (textSystem system read)⟩
      | ok text => simp [read, Except.isOk, Except.toBool] at unable

theorem scanFileCoded (correct : e.Correct source.disk) (system : source.faults.SystemOnly)
    (proper : p.Proper) : Coded (e.scanFile source p).1 := by
  intro fault failed
  cases able : e.scannable source p with
  | true =>
    rw [scannedWhenScannable correct proper able] at failed
    contradiction
  | false =>
    obtain ⟨fault', failed', coded⟩ := refusedWhenUnscannable system able
    rw [failed] at failed'
    cases failed'
    exact coded

theorem foundScanned (correct : e.Correct source.disk) (system : source.faults.SystemOnly)
    (proper : p.Proper) : found (e.scanFile source p).1 = e.scannedFindings source p := by
  unfold scannedFindings
  cases able : e.scannable source p with
  | true => rw [scannedWhenScannable correct proper able]; rfl
  | false =>
    obtain ⟨fault, failed, -⟩ := refusedWhenUnscannable system able
    rw [failed]
    rfl

theorem allScanned (correct : e.Correct source.disk) (system : source.faults.SystemOnly)
    {paths : List AbsPath} (proper : ∀ p ∈ paths, p.Proper) :
    paths.flatMap (fun p => found (e.scanFile source p).1) = paths.flatMap (e.scannedFindings source) :=
  List.flatMap_congr fun p member => foundScanned correct system (proper p member)

theorem troubledPaths (correct : e.Correct source.disk) (system : source.faults.SystemOnly)
    {paths : List AbsPath} (now : String) (proper : ∀ p ∈ paths, p.Proper) :
    (paths.filterMap (fun p => trouble now p (e.scanFile source p).1)).map ScanError.filePath =
      (paths.filter (fun p => !e.scannable source p)).map AbsPath.text := by
  induction paths with
  | nil => rfl
  | cons p rest ih =>
    have fewer := ih (fun q member => proper q (List.mem_cons_of_mem _ member))
    cases able : e.scannable source p with
    | true =>
      have scanned := scannedWhenScannable correct (proper p List.mem_cons_self) able
      rw [List.filterMap_cons_none (by rw [scanned]; rfl), List.filter_cons_of_neg (by simp [able]), fewer]
    | false =>
      obtain ⟨fault, failed, coded⟩ := refusedWhenUnscannable system able
      obtain ⟨code, known⟩ := Option.isSome_iff_exists.mp coded
      have entry : trouble now p (e.scanFile source p).1 = some ⟨p.text, fault.message, code, now⟩ := by
        simp [failed, trouble, errorOf, known]
      rw [List.filter_cons_of_pos (by simp [able])]
      simp only [List.filterMap_cons, entry, List.map_cons, fewer]

end

structure Wanted {α : Type} (e : Engine) (here : AbsPath) (resolve : α → Except Fault AbsPath) (paths : List α)
    (wanted : List AbsPath) : Prop where
  rising : wanted.Pairwise (fun p q => p.text < q.text)
  members : ∀ p, p ∈ wanted ↔ (∃ s ∈ paths, resolve s = .ok p) ∧ e.eligible here p.text = true

structure Gathered (e : Engine) (source : Source) (wanted : List AbsPath) (result : ScanResult) : Prop where
  counted : result.scannedFiles = wanted.length
  findings : result.findings.Perm (wanted.flatMap (e.scannedFindings source))
  ordered : result.findings.Pairwise (fun a b => a.notAfter b = true)
  total : result.total = result.findings.length
  errors : result.errors.map ScanError.filePath =
    (wanted.filter (fun p => !e.scannable source p)).map AbsPath.text

def Absolute {α : Type} (resolve : α → Except Fault AbsPath) (paths : List α) : Prop :=
  ∀ s ∈ paths, ∀ p, resolve s = .ok p → p.Proper

section
variable {α : Type} {e : Engine} {source : Source} {here : AbsPath} {resolve : α → Except Fault AbsPath}
variable {paths : List α}

theorem Wanted.proper {wanted : List AbsPath} (wants : Wanted e here resolve paths wanted)
    (absolute : Absolute resolve paths) : ∀ p ∈ wanted, p.Proper := by
  intro p member
  obtain ⟨⟨s, asked, resolved⟩, -⟩ := (wants.members p).mp member
  exact absolute s asked p resolved

theorem Wanted.unique {e' : Engine} {again : List α} {wanted wanted' : List AbsPath}
    (wants : Wanted e here resolve paths wanted) (wants' : Wanted e' here resolve again wanted')
    (scan : e'.settings.scan = e.settings.scan) (same : ∀ s, s ∈ again ↔ s ∈ paths) : wanted' = wanted := by
  have irreflexive : Std.Irrefl (fun p q : AbsPath => p.text < q.text) :=
    ⟨fun p => String.lt_irrefl p.text⟩
  have antisymmetric : Std.Antisymm (fun p q : AbsPath => p.text < q.text) :=
    ⟨fun p q first second => absurd (String.lt_trans first second) (String.lt_irrefl p.text)⟩
  have eligible : ∀ path, e'.eligible here path = e.eligible here path := by
    simp [eligible, selector, Settings.rootTexts, scan]
  apply List.Pairwise.eq_of_mem_iff wants'.rising wants.rising
  intro p
  rw [wants'.members, wants.members, eligible]
  simp only [same]

theorem distinctWanted (e : Engine) (here : AbsPath) {places : List AbsPath} (absolute : Absolute resolve paths)
    (resolved : paths.mapM resolve = .ok places) :
    Wanted e here resolve paths ((distinct places).filter (fun p => e.eligible here p.text)) := by
  have proper : ∀ p ∈ places, p.Proper := by
    intro p member
    obtain ⟨s, asked, leads⟩ := mapSource resolved p member
    exact absolute s asked p leads
  obtain ⟨rising, members⟩ := sortedOnce AbsPath.text _
    (fun p left q right same => (proper p left).textInjective (proper q right) same)
  refine ⟨rising.sublist List.filter_sublist, ?_⟩
  intro p
  rw [List.mem_filter]
  exact and_congr_left fun _ => (members p).trans (mapMemberIff resolved)

theorem resolvePlain {texts : List String} (plain : ∀ s ∈ texts, (Written.ofText s).hasNull = false) :
    ∀ s ∈ texts, ∃ p, Path.resolve here s = .ok p :=
  fun s member => ⟨_, by rw [Path.resolve, if_neg (by simp [plain s member])]⟩

theorem resolveAbsolute (home : here.Proper) (texts : List String) : Absolute (Path.resolve here) texts :=
  fun _ _ _ leads => Path.resolveProper home leads

end
end Engine

namespace Finding

theorem notAfterIff {a b : Finding} : a.notAfter b = true ↔
    a.filePath < b.filePath ∨ a.filePath = b.filePath ∧
      (a.lineNumber < b.lineNumber ∨ a.lineNumber = b.lineNumber ∧ a.column ≤ b.column) := by
  simp [notAfter]

theorem sortOrdered (findings : List Finding) :
    (sort findings).Pairwise (fun a b => a.notAfter b = true) := by
  apply List.pairwise_mergeSort
  · intro a b c first second
    rw [notAfterIff] at first second ⊢
    rcases first with before | ⟨same, first⟩
    · rcases second with before' | ⟨same', -⟩
      · exact .inl (String.lt_trans before before')
      · exact .inl (same' ▸ before)
    · rcases second with before' | ⟨same', second⟩
      · exact .inl (same ▸ before')
      · exact .inr ⟨same.trans same', by omega⟩
  · intro a b
    rw [Bool.or_eq_true, notAfterIff, notAfterIff]
    by_cases before : a.filePath < b.filePath
    · exact .inl (.inl before)
    · by_cases after : b.filePath < a.filePath
      · exact .inr (.inl after)
      · have same : a.filePath = b.filePath :=
          String.le_antisymm (String.not_lt.mp after) (String.not_lt.mp before)
        rw [same]
        simp only [String.lt_irrefl, false_or, true_and]
        omega

end Finding

namespace Engine

section
variable {e : Engine} {source : Source} {now : String} {wanted : List AbsPath}

theorem ofPartsGathered (correct : e.Correct source.disk) (system : source.faults.SystemOnly)
    (proper : ∀ p ∈ wanted, p.Proper) (rising : wanted.Pairwise (fun p q => p.text < q.text)) :
    Gathered e source wanted
      (ScanResult.ofParts (wanted.flatMap (fun p => found (e.scanFile source p).1)) wanted.length
        (wanted.filterMap (fun p => trouble now p (e.scanFile source p).1))) := by
  have paths := troubledPaths correct system now proper
  have sorted : (wanted.filterMap (fun p => trouble now p (e.scanFile source p).1)).Pairwise
      (fun a b => decide (a.filePath ≤ b.filePath) = true) := by
    have texts : ((wanted.filter (fun p => !e.scannable source p)).map AbsPath.text).Pairwise (· < ·) :=
      List.pairwise_map.mpr (rising.sublist List.filter_sublist)
    rw [← paths, List.pairwise_map] at texts
    refine texts.imp fun before => decide_eq_true (String.not_lt.mp fun back => ?_)
    exact String.lt_irrefl _ (String.lt_trans before back)
  constructor
  · rfl
  · rw [← allScanned correct system proper]
    exact List.mergeSort_perm _ _
  · exact Finding.sortOrdered _
  · exact (List.mergeSort_perm _ _).length_eq.symm
  · rw [ScanResult.ofParts, List.mergeSort_of_pairwise sorted]
    exact paths

section
variable {α : Type} {resolve : α → Except Fault AbsPath} {paths : List α}

theorem scanFilesCollects (now : String) (idle : e.scanning = false) (absolute : Absolute resolve paths)
    (sized : 0 < e.settings.limits.batchSize) (leads : ∀ s ∈ paths, ∃ p, resolve s = .ok p)
    (wants : Wanted e source.disk.here resolve paths wanted)
    (coded : ∀ p ∈ wanted, Coded (e.scanFile source p).1) :
    (e.scanFilesBy resolve source now paths).1 =
      .ok (ScanResult.ofParts (wanted.flatMap (fun p => found (e.scanFile source p).1)) wanted.length
        (wanted.filterMap (fun p => trouble now p (e.scanFile source p).1))) := by
  obtain ⟨places, resolved⟩ := mapDone leads
  have known := (distinctWanted e source.disk.here absolute resolved).unique wants rfl (fun _ => Iff.rfl)
  have running : ∀ p, (Engine.scanFile { e with scanning := true } source p).1 = (e.scanFile source p).1 :=
    fun p => SameView.outcome ⟨rfl, rfl, fun _ => rfl, rfl, rfl⟩
  have gathered := scanPathsGathers (e := { e with scanning := true }) now [] sized (wants.proper absolute)
    (fun p member => running p ▸ coded p member)
  unfold scanFilesBy
  rw [idle, if_neg Bool.false_ne_true, resolved]
  dsimp only
  rw [← known, gathered]
  simp only [running, List.nil_append]

theorem scanFilesGathers (now : String) (idle : e.scanning = false) (correct : e.Correct source.disk)
    (system : source.faults.SystemOnly) (absolute : Absolute resolve paths)
    (sized : 0 < e.settings.limits.batchSize) (leads : ∀ s ∈ paths, ∃ p, resolve s = .ok p)
    (wants : Wanted e source.disk.here resolve paths wanted) :
    (e.scanFilesBy resolve source now paths).1 =
      .ok (ScanResult.ofParts (wanted.flatMap (fun p => found (e.scanFile source p).1)) wanted.length
        (wanted.filterMap (fun p => trouble now p (e.scanFile source p).1))) :=
  scanFilesCollects now idle absolute sized leads wants
    (fun p member => scanFileCoded correct system (wants.proper absolute p member))

end
end

def resized (e : Engine) (size : Nat) : Engine :=
  { e with settings := { e.settings with limits := { e.settings.limits with batchSize := size } } }

theorem batchScan {α : Type} (e : Engine) (source : Source) (now : String) (resolve : α → Except Fault AbsPath)
    (paths : List α) (absolute : Absolute resolve paths) (idle : e.scanning = false)
    (correct : e.Correct source.disk) (system : source.faults.SystemOnly)
    (sized : 0 < e.settings.limits.batchSize) :
    ((∀ s ∈ paths, ∃ p, resolve s = .ok p) →
      ∃ wanted result, Wanted e source.disk.here resolve paths wanted ∧
        (e.scanFilesBy resolve source now paths).1 = .ok result ∧ Gathered e source wanted result ∧
        ∀ again size, (∀ s, s ∈ again ↔ s ∈ paths) → 0 < size →
          ((e.resized size).scanFilesBy resolve source now again).1 = .ok result) ∧
    ∀ front s back fault, paths = front ++ s :: back → (∀ t ∈ front, ∃ p, resolve t = .ok p) →
      resolve s = .error fault → e.scanFilesBy resolve source now paths = (.error fault, e, source) := by
  constructor
  · intro leads
    obtain ⟨places, resolved⟩ := mapDone leads
    have wants := distinctWanted e source.disk.here absolute resolved
    refine ⟨_, _, wants, scanFilesGathers now idle correct system absolute sized leads wants,
      ofPartsGathered correct system (wants.proper absolute) wants.rising, ?_⟩
    intro again size same some
    have leads' : ∀ s ∈ again, ∃ p, resolve s = .ok p := fun s member => leads s ((same s).mp member)
    have absolute' : Absolute resolve again := fun s member => absolute s ((same s).mp member)
    obtain ⟨places', resolved'⟩ := mapDone leads'
    have wants' := distinctWanted (e.resized size) source.disk.here absolute' resolved'
    have gathered := scanFilesGathers (e := e.resized size) now idle correct system absolute' some leads' wants'
    have outcome : ∀ p, ((e.resized size).scanFile source p).1 = (e.scanFile source p).1 :=
      fun p => SameView.outcome ⟨rfl, rfl, fun _ => rfl, rfl, rfl⟩
    rw [gathered, wants.unique wants' rfl same]
    simp only [outcome]
  · rintro front s back fault rfl before failed
    unfold scanFilesBy
    rw [idle, if_neg Bool.false_ne_true, mapStops before failed]
    dsimp only [settle]
    rw [← idle]

def twoFiles : Source :=
  { disk :=
      { nodes := [(⟨["w"]⟩, .dir), (⟨["w", "a.php"]⟩, .file "dd(1);".toUTF8 1),
          (⟨["w", "b.php"]⟩, .file "echo 2;".toUTF8 1)]
        here := ⟨["w"]⟩ }
    faults := { readText := [("/w/b.php", .os 13 "Permission denied")] } }

/-- Two links: one to a file, and one to itself. -/
def throughLinks (path : String) : Except Fault AbsPath :=
  if path == "link.php" then .ok ⟨["w", "a.php"]⟩
  else if path == "loop.php" then .error (.crash "Symlink loop from '/w/loop.php'")
  else Path.resolve ⟨["w"]⟩ path

theorem unreadableFileReported :
    (∃ wanted result,
      Wanted { settings := Settings.default ⟨["w"]⟩ } ⟨["w"]⟩ throughLinks ["b.php", "link.php", "./a.php", "c.txt"]
          wanted ∧
        (Engine.scanFilesBy throughLinks { settings := Settings.default ⟨["w"]⟩ } twoFiles "t"
          ["b.php", "link.php", "./a.php", "c.txt"]).1 = .ok result ∧
        Gathered { settings := Settings.default ⟨["w"]⟩ } twoFiles wanted result ∧
        ∀ again size, (∀ s, s ∈ again ↔ s ∈ ["b.php", "link.php", "./a.php", "c.txt"]) → 0 < size →
          ((resized { settings := Settings.default ⟨["w"]⟩ } size).scanFilesBy throughLinks twoFiles "t" again).1 =
            .ok result) ∧
    (Engine.scanFilesBy throughLinks { settings := Settings.default ⟨["w"]⟩ } twoFiles "t"
      ["a.php", "loop.php"]).1 = .error (.crash "Symlink loop from '/w/loop.php'") := by
  have system : twoFiles.faults.SystemOnly := by simp [Faults.SystemOnly, twoFiles]
  have absolute (paths : List String) : Absolute throughLinks paths := by
    intro s _ p leads
    unfold throughLinks at leads
    split at leads
    · cases leads
      decide
    · split at leads
      · contradiction
      · exact Path.resolveProper (by decide) leads
  have leads (paths : List String) (plain : ∀ s ∈ paths, (Written.ofText s).hasNull = false)
      (free : "loop.php" ∉ paths) : ∀ s ∈ paths, ∃ p, throughLinks s = .ok p := by
    intro s member
    unfold throughLinks
    have other : s ≠ "loop.php" := fun same => free (same ▸ member)
    split
    · exact ⟨_, rfl⟩
    · rw [if_neg (by simp [other])]
      exact resolvePlain plain s member
  have scanned (paths : List String) := batchScan { settings := Settings.default ⟨["w"]⟩ } twoFiles "t" throughLinks
    paths (absolute paths) rfl (uncached _ _) system (by decide)
  exact ⟨(scanned _).1 (leads _ (by decide) (by decide)),
    congrArg Prod.fst ((scanned _).2 ["a.php"] "loop.php" [] _ rfl (leads _ (by decide) (by decide)) rfl)⟩

theorem nullPathRefused :
    Correct { settings := Settings.default ⟨["w"]⟩ } twoFiles.disk ∧ twoFiles.faults.SystemOnly ∧
      ¬ ∃ result, (Engine.scanFiles { settings := Settings.default ⟨["w"]⟩ } twoFiles "t"
        ["a.php", "b\x00.php"]).1 = .ok result := by
  refine ⟨uncached _ _, by simp [Faults.SystemOnly, twoFiles], ?_⟩
  have refused : ["a.php", "b\x00.php"].mapM (Path.resolve ⟨["w"]⟩) = .error (.invalid .nullByte) :=
    @mapStops _ _ _ _ ["a.php"] [] _ _ (resolvePlain (by decide)) (by decide)
  rintro ⟨result, scanned⟩
  unfold scanFiles scanFilesBy at scanned
  rw [if_neg Bool.false_ne_true] at scanned
  simp [twoFiles, refused] at scanned

end Engine
end DebugSweep
