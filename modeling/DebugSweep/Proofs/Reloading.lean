import DebugSweep.Proofs.Watching

/-! New settings for an engine that has scanned before. Main statement: if no file changed after it was
cached, a scan of the workspace under new settings gives what a new engine gives, except that findings
from the cache still stand below the old roots. -/
namespace DebugSweep

namespace Scan
open Lexis

theorem findingRelocated (path before after : String) (number : Int) (line : List Char) (code : CodeLine)
    (m : Merged) : finding? ⟨path, after⟩ number line code m =
      (finding? ⟨path, before⟩ number line code m).map (fun f => { f with relativePath := after }) := by
  unfold finding?
  cases locate? line code m with
  | none => rfl
  | some span =>
    dsimp only [bind, Option.bind]
    split <;> rfl

theorem textRelocated (path before after : String) (source : List Char) : text ⟨path, after⟩ source =
    (text ⟨path, before⟩ source).map (fun f => { f with relativePath := after }) := by
  simp only [textRows, List.map_flatMap]
  refine List.flatMap_congr fun row _ => ?_
  rw [Row.findings, Row.findings, List.map_filterMap]
  exact List.filterMap_congr fun m _ => findingRelocated path before after _ _ _ m

theorem textOrigin {origin : Origin} {source : List Char} {f : Finding} (member : f ∈ text origin source) :
    f.filePath = origin.filePath ∧ f.relativePath = origin.relativePath := by
  have same := textRelocated origin.filePath origin.relativePath origin.relativePath source
  rw [same] at member
  obtain ⟨g, inside, rfl⟩ := List.mem_map.mp member
  rw [textRows] at inside
  obtain ⟨row, -, known⟩ := List.mem_flatMap.mp inside
  obtain ⟨m, -, found⟩ := List.mem_filterMap.mp known
  exact ⟨(findingOrigin found).1, rfl⟩

end Scan

namespace Cache

theorem getStoreSame (c : Cache) (path : String) (size mtime : Int) (findings : List Finding) :
    (c.store path size mtime findings).get? path =
      some ⟨path, size, mtime, fingerprint size mtime, findings⟩ := by
  simp [store, get?]

theorem getStoreOther {path other : String} (c : Cache) (size mtime : Int) (findings : List Finding)
    (apart : other ≠ path) : (c.store path size mtime findings).get? other = c.get? other := by
  rw [← getDiscardOther c apart]
  simp [store, get?, apart.symm]

theorem lookupGet {c : Cache} {path mark : String} {findings : List Finding}
    (hit : c.lookup? path mark = some findings) :
    ∃ entry, c.get? path = some entry ∧ entry.mark = mark ∧ entry.findings = findings := by
  unfold lookup? at hit
  split at hit
  · rename_i entry found
    split at hit
    · rename_i same
      exact ⟨entry, found, by simpa using same, Option.some.inj hit⟩
    · contradiction
  · contradiction

end Cache

namespace Engine

def relocate (settings : Settings) (f : Finding) : Finding :=
  { f with relativePath := relativePath { settings } ⟨[]⟩ f.filePath }

section
variable {settings c : Settings} {p : AbsPath} {content : ByteArray}

theorem findingsPlace {f : Finding} (member : f ∈ findingsOf settings p content) :
    f.filePath = p.text ∧ f.relativePath = relativePath { settings } ⟨[]⟩ p.text :=
  Scan.textOrigin member

theorem findingsRelocated (settings c : Settings) (p : AbsPath) (content : ByteArray) :
    (findingsOf settings p content).map (relocate c) = findingsOf c p content := by
  conv_rhs => rw [findingsOf, Scan.textRelocated p.text (relativePath { settings } ⟨[]⟩ p.text)]
  refine List.map_congr_left fun f member => ?_
  rw [relocate, (findingsPlace member).1]

end

inductive Recorded (settings : Settings) (p : AbsPath) (known : FileStat → ByteArray → Prop)
    (before : Cache) : Cache → Prop where
  | kept : Recorded settings p known before before
  | forgotten : Recorded settings p known before (before.discard p.text)
  | stored {stat : FileStat} {content : ByteArray} (facts : known stat content) :
      Recorded settings p known before
        (before.store p.text stat.size stat.mtime (findingsOf settings p content))

section
variable {e : Engine} {source : Source} {p : AbsPath}

theorem failedRecords (known : FileStat → ByteArray → Prop) (fault : Fault) :
    ∃ cache, (e.failed p fault).2 = { e with cache } ∧ Recorded e.settings p known e.cache cache := by
  unfold failed
  split
  · exact ⟨_, rfl, .forgotten⟩
  · exact ⟨_, rfl, .kept⟩

theorem absorbRecords {text : Except Fault (List Char)} (stat : FileStat) {content? : Option ByteArray}
    (read : ∀ chars, text = .ok chars → ∃ content, content? = some content ∧ chars = Source.textOf content) :
    ∃ cache, (e.absorb p stat text).2 = { e with cache } ∧
      Recorded e.settings p (fun stat' content => stat' = stat ∧ content? = some content) e.cache cache := by
  cases text with
  | error fault => exact failedRecords _ fault
  | ok chars =>
    obtain ⟨content, held, rfl⟩ := read chars rfl
    exact ⟨_, rfl, .stored ⟨rfl, held⟩⟩

theorem glanceRecords {outcome : Outcome} {e' : Engine} (known : FileStat → ByteArray → Prop)
    (glanced : e.glance source p = .known outcome e') :
    ∃ cache, e' = { e with cache } ∧ Recorded e.settings p known e.cache cache := by
  unfold glance at glanced
  split at glanced
  · cases glanced
    exact failedRecords known _
  · dsimp only at glanced
    split at glanced
    · cases glanced
      exact ⟨_, rfl, .forgotten⟩
    · split at glanced
      · cases glanced
        exact ⟨_, rfl, .kept⟩
      · contradiction

theorem glanceSizes {stat : FileStat} (glanced : e.glance source p = .needsText stat) :
    source.stat p = .ok stat := by
  unfold glance at glanced
  split at glanced
  · contradiction
  · dsimp only at glanced
    split at glanced
    · contradiction
    · split at glanced
      · contradiction
      · cases glanced
        assumption

theorem scanFileRecords (e : Engine) (source : Source) (p : AbsPath) :
    ∃ cache, (e.scanFile source p).2.1 = { e with cache } ∧
      Recorded e.settings p (fun stat content => statOf? source.disk p = some stat ∧
        contentOf? source.disk p = some content) e.cache cache := by
  unfold scanFile
  cases glanced : e.glance source p with
  | known outcome e' => exact glanceRecords _ glanced
  | needsText stat =>
    obtain ⟨cache, same, recorded⟩ := @absorbRecords e p _ stat _ (fun _ => textFound)
    refine ⟨cache, same, ?_⟩
    cases recorded with
    | kept => exact .kept
    | forgotten => exact .forgotten
    | stored facts =>
      obtain ⟨rfl, held⟩ := facts
      exact .stored ⟨statFound (glanceSizes glanced), held⟩

end

theorem Kept.performAll {holds : Engine → Source → Prop} {e : Engine} {source : Source} {acts : List Act}
    (kept : Kept holds) (outside : ∀ source', Act.outside source' ∈ acts → ∀ e source, holds e source →
      holds e source') (start : holds e source) :
    holds (performAll e source acts).1 (performAll e source acts).2 := by
  induction acts generalizing e source with
  | nil => exact start
  | cons act rest ih =>
    apply ih (fun source' member => outside source' (List.mem_cons_of_mem _ member))
    cases act with
    | scanFile p => exact kept.file e source p start
    | scanFiles now paths => exact kept.scanFiles now paths start
    | scanWorkspace now => exact kept.scanWorkspace now start
    | outside source' => exact outside source' List.mem_cons_self e source start

theorem performAllAppend (e : Engine) (source : Source) (before after : List Act) :
    performAll e source (before ++ after) =
      performAll (performAll e source before).1 (performAll e source before).2 after := by
  induction before generalizing e source with
  | nil => rfl
  | cons act rest ih => exact ih _ _

theorem performAllIdle {e : Engine} (source : Source) (acts : List Act) (idle : e.scanning = false) :
    (performAll e source acts).1.scanning = false := by
  have settled : ∀ (e : Engine) (result : Except Fault ScanResult), (e.settle result).scanning = false := by
    intro e result
    cases result <;> rfl
  induction acts generalizing e source with
  | nil => exact idle
  | cons act rest ih =>
    apply ih
    cases act with
    | scanFile p =>
      obtain ⟨cache, same, -⟩ := scanFileRecords e source p
      rw [perform, same]
      exact idle
    | scanFiles now paths =>
      rw [perform, scanFiles, scanFilesBy, idle, if_neg Bool.false_ne_true]
      exact settled _ _
    | scanWorkspace now =>
      rw [perform, scanWorkspace, idle, if_neg Bool.false_ne_true]
      exact settled _ _
    | outside source' => exact idle

/-- Each entry came into the cache after a moment from which on its file stayed the same. -/
def Untouched (settings : Settings) (start : Source) (acts : List Act) : Prop :=
  ∀ path entry, (performAll { settings } start acts).1.cache.get? path = some entry →
    ∃ before after, acts = before ++ after ∧
      (performAll { settings } start before).1.cache.get? path ≠ some entry ∧
      ∀ d ∈ disksOf (performAll { settings } start before).2 after, ∀ p : AbsPath, p.text = path →
        d.get? p = (performAll { settings } start acts).2.disk.get? p

/-- While a file stays as it is on one disk, what is cached of it is old or describes it. -/
structure Since (settings : Settings) (d : Disk) (path : String) (old : Option CacheEntry) (e : Engine)
    (source : Source) : Prop where
  fixed : e.settings = settings
  alike : ∀ p : AbsPath, p.text = path → source.disk.get? p = d.get? p
  entry : ∀ entry, e.cache.get? path = some entry → old = some entry ∨
    ∃ p content, p.text = path ∧ contentOf? d p = some content ∧ entry.findings = findingsOf settings p content

theorem sinceKept (settings : Settings) (d : Disk) (path : String) (old : Option CacheEntry) :
    Kept (Since settings d path old) := by
  constructor
  · intro e source p since
    obtain ⟨cache, same, recorded⟩ := scanFileRecords e source p
    refine ⟨by rw [same]; exact since.fixed, ?_, ?_⟩
    · intro q text
      rw [(diskKept source.disk).file e source p rfl]
      exact since.alike q text
    · intro entry known
      rw [same] at known
      by_cases here : path = p.text
      · subst here
        cases recorded with
        | kept => exact since.entry entry known
        | forgotten => simp [Cache.getDiscardSame] at known
        | @stored stat content facts =>
          rw [Cache.getStoreSame] at known
          cases known
          rw [contentOf?, since.alike p rfl] at facts
          exact .inr ⟨p, content, rfl, facts.2, by rw [since.fixed]⟩
      · cases recorded with
        | kept => exact since.entry entry known
        | forgotten => exact since.entry entry (by rwa [Cache.getDiscardOther _ here] at known)
        | stored facts => exact since.entry entry (by rwa [Cache.getStoreOther _ _ _ _ here] at known)
  · intro e source scanning last since
    exact ⟨since.fixed, since.alike, since.entry⟩

theorem settingsKept (settings : Settings) : Kept (fun e _ => e.settings = settings) := by
  constructor
  · intro e source p fixed
    obtain ⟨cache, same, -⟩ := scanFileRecords e source p
    rw [same]
    exact fixed
  · intro e source scanning last fixed
    exact fixed

theorem contentProper {d : Disk} {p : AbsPath} {content : ByteArray} (tree : d.Tree)
    (held : contentOf? d p = some content) : p.Proper := by
  unfold contentOf? at held
  split at held
  · rename_i found
    refine tree.proper _ (Disk.nodeFound found fun top => ?_)
    simp [Disk.get?, top] at found
  · contradiction

theorem untouchedCorrect {settings : Settings} {start : Source} {acts : List Act}
    (untouched : Untouched settings start acts)
    (tree : (performAll { settings } start acts).2.disk.Tree) :
    (performAll { settings } start acts).1.Correct (performAll { settings } start acts).2.disk := by
  intro p proper stat findings _ hit
  obtain ⟨entry, cached, -, rfl⟩ := Cache.lookupGet hit
  obtain ⟨before, after, split, fresh, alike⟩ := untouched p.text entry cached
  have fixed : ∀ acts, (performAll { settings } start acts).1.settings = settings := fun acts =>
    (settingsKept settings).performAll (fun _ _ _ _ => id) rfl
  have since := @Kept.performAll _ _ _ after (sinceKept settings (performAll { settings } start acts).2.disk
    p.text ((performAll { settings } start before).1.cache.get? p.text))
    (fun source' member e source since => ⟨since.fixed, alike source'.disk (List.mem_cons_of_mem _
      (List.mem_filterMap.mpr ⟨_, member, rfl⟩)), since.entry⟩)
    ⟨fixed before, alike _ List.mem_cons_self, fun _ known => .inl known⟩
  rw [← performAllAppend, ← split] at since
  rcases since.entry entry cached with old | ⟨q, content, text, held, found⟩
  · exact absurd old fresh
  · obtain rfl := (contentProper tree held).textInjective proper text
    exact ⟨content, held, by rw [found, fixed]⟩

def Recalls (e : Engine) (source : Source) (p : AbsPath) : Prop :=
  ∃ stat findings, source.stat p = .ok stat ∧ ¬ e.settings.limits.maxFileBytes < stat.size ∧
    e.cache.lookup? p.text (fingerprint stat.size stat.mtime) = some findings ∧ findings ≠ []

section
variable {e : Engine} {c : Settings} {source : Source} {p : AbsPath} {content : ByteArray} {mtime : Int}

theorem recalledFile (correct : e.Correct source.disk) (proper : p.Proper)
    (recalls : (e.reload c).Recalls source p) : ∃ content,
      ((e.reload c).scanFile source p).1 = .ok (findingsOf e.settings p content) ∧
      findingsOf e.settings p content ≠ [] := by
  obtain ⟨stat, findings, sized, small, hit, some⟩ := recalls
  obtain ⟨content, held, rfl⟩ := correct p proper stat findings (statFound sized) hit
  exact ⟨content, by rw [scanFileHit sized small hit], some⟩

inductive Reloaded (e : Engine) (c : Settings) (source : Source) (p : AbsPath) (content : ByteArray) :
    Outcome → Outcome → Prop where
  | refused {fault : Fault} (coded : fault.code?.isSome = true) :
      Reloaded e c source p content (.error fault) (.error fault)
  | scanned : Reloaded e c source p content (.ok (findingsOf c p content)) (.ok (findingsOf c p content))
  | recalled (recalls : findingsOf e.settings p content ≠ [] → (e.reload c).Recalls source p) :
      Reloaded e c source p content (.ok (findingsOf e.settings p content)) (.ok (findingsOf c p content))

theorem fileReloaded (c : Settings) (correct : e.Correct source.disk) (calm : source.faults = {})
    (proper : p.Proper) (file : source.disk.get? p = some (.file content mtime)) :
    Reloaded e c source p content ((e.reload c).scanFile source p).1
      (({ settings := c } : Engine).scanFile source p).1 := by
  have sized := Source.statCalm calm file
  have read := Source.readCalm calm file
  by_cases large : c.limits.maxFileBytes < content.size
  · rw [scanFileLarge (e := e.reload c) sized large, scanFileLarge (e := { settings := c }) sized large]
    exact .refused rfl
  · have fresh := scanFileRead (e := { settings := c }) sized large rfl read
    rw [fresh]
    cases hit : e.cache.lookup? p.text (fingerprint content.size mtime) with
    | none =>
      rw [scanFileRead (e := e.reload c) sized large hit read]
      exact .scanned
    | some findings =>
      obtain ⟨content', held, rfl⟩ := correct p proper _ findings (statFound sized) hit
      obtain rfl : content = content' := by simpa [contentOf?, file] using held
      rw [scanFileHit (e := e.reload c) sized large hit]
      exact .recalled fun some => ⟨_, _, sized, large, hit, some⟩

section
variable {outcome fresh : Outcome}

theorem Reloaded.coded (reloaded : Reloaded e c source p content outcome fresh) : Coded outcome ∧ Coded fresh := by
  cases reloaded with
  | refused coded => exact ⟨fun _ same => by cases same; exact coded, fun _ same => by cases same; exact coded⟩
  | scanned => exact ⟨fun _ same => by contradiction, fun _ same => by contradiction⟩
  | recalled => exact ⟨fun _ same => by contradiction, fun _ same => by contradiction⟩

theorem Reloaded.found (reloaded : Reloaded e c source p content outcome fresh) :
    found fresh = (found outcome).map (relocate c) := by
  cases reloaded with
  | refused => rfl
  | scanned => exact (findingsRelocated c c p content).symm
  | recalled => exact (findingsRelocated e.settings c p content).symm

theorem Reloaded.trouble (reloaded : Reloaded e c source p content outcome fresh) (now : String) :
    trouble now p fresh = trouble now p outcome := by
  cases reloaded <;> rfl

theorem Reloaded.place {f : Finding} (reloaded : Reloaded e c source p content outcome fresh)
    (member : f ∈ Engine.found outcome) : f.filePath = p.text ∧
      (f.relativePath = relativePath { settings := c } ⟨[]⟩ p.text ∨ (e.reload c).Recalls source p ∧
        f.relativePath = relativePath { settings := e.settings } ⟨[]⟩ p.text) := by
  cases reloaded with
  | refused => exact absurd member List.not_mem_nil
  | scanned =>
    obtain ⟨path, relative⟩ := findingsPlace member
    exact ⟨path, .inl relative⟩
  | recalled recalls =>
    obtain ⟨path, relative⟩ := findingsPlace member
    exact ⟨path, .inr ⟨recalls (List.ne_nil_of_mem member), relative⟩⟩

end

theorem scanWorkspaceCollects {w : Walk} (now : String) (idle : e.scanning = false)
    (sized : 0 < e.settings.limits.batchSize) (proper : ∀ p ∈ w.found, p.Proper)
    (walked : Walk.collect e.selector source = .ok w)
    (coded : ∀ p ∈ w.found, Coded (e.scanFile source p).1) :
    (e.scanWorkspace source now).1 =
      .ok (ScanResult.ofParts (w.found.flatMap (fun p => found (e.scanFile source p).1)) w.found.length
        (walkErrors now w ++ w.found.filterMap (fun p => trouble now p (e.scanFile source p).1))) := by
  have running : ∀ p, (Engine.scanFile { e with scanning := true } source p).1 = (e.scanFile source p).1 :=
    fun p => SameView.outcome ⟨rfl, rfl, fun _ => rfl, rfl, rfl⟩
  have gathered := scanPathsGathers (e := { e with scanning := true }) now (walkErrors now w) sized proper
    (fun p member => running p ▸ coded p member)
  simp only [running] at gathered
  unfold scanWorkspace
  rw [idle, if_neg Bool.false_ne_true, walked]
  exact gathered

theorem sortRelocated (c : Settings) (findings : List Finding) :
    Finding.sort (findings.map (relocate c)) = (Finding.sort findings).map (relocate c) := by
  symm
  apply List.map_mergeSort
  intro a _ b _
  rfl

theorem relocatedSame {findings : List Finding} : findings = findings.map (relocate c) ↔
    ∀ f ∈ findings, f.relativePath = relativePath { settings := c } ⟨[]⟩ f.filePath := by
  conv_lhs => lhs; rw [← List.map_id findings]
  rw [List.map_inj_left]
  refine forall₂_congr fun f _ => ⟨fun same => congrArg Finding.relativePath same, fun same => ?_⟩
  rw [relocate, ← same]
  rfl

-- Findings stand below the new roots exactly when no file with cached ones stands elsewhere below the old.
theorem relocatedIff {paths : List AbsPath} (correct : e.Correct source.disk)
    (files : ∀ p ∈ paths, p.Proper ∧ ∃ content, Reloaded e c source p content
      ((e.reload c).scanFile source p).1 (({ settings := c } : Engine).scanFile source p).1) :
    (∀ f ∈ paths.flatMap (fun p => found ((e.reload c).scanFile source p).1),
      f.relativePath = relativePath { settings := c } ⟨[]⟩ f.filePath) ↔
    ∀ p ∈ paths, (e.reload c).Recalls source p →
      relativePath { settings := e.settings } ⟨[]⟩ p.text = relativePath { settings := c } ⟨[]⟩ p.text := by
  constructor
  · intro same p member recalls
    obtain ⟨content, outcome, some⟩ := recalledFile correct (files p member).1 recalls
    obtain ⟨f, rest, filled⟩ := List.exists_cons_of_ne_nil some
    have inside : f ∈ findingsOf e.settings p content := by simp [filled]
    obtain ⟨path, relative⟩ := findingsPlace inside
    rw [← relative, same f (List.mem_flatMap.mpr ⟨p, member, by rwa [outcome]⟩), path]
  · intro same f member
    obtain ⟨p, known, inside⟩ := List.mem_flatMap.mp member
    obtain ⟨-, content, reloaded⟩ := files p known
    obtain ⟨path, relative | ⟨recalls, relative⟩⟩ := reloaded.place inside
    · rw [relative, path]
    · rw [relative, path, same p known recalls]

theorem reloadedWorkspace (c : Settings) (now : String) (idle : e.scanning = false)
    (correct : e.Correct source.disk) (sized : 0 < c.limits.batchSize) (tree : source.disk.Tree)
    (calm : source.faults = {}) :
    ∃ result, ((e.reload c).scanWorkspace source now).1 = .ok result ∧
      (({ settings := c } : Engine).scanWorkspace source now).1 =
        .ok { result with findings := result.findings.map (relocate c) } ∧
      ((∀ f ∈ result.findings, f.relativePath = relativePath { settings := c } ⟨[]⟩ f.filePath) ↔
        ∀ root ∈ c.scan.roots, ∀ p, Walk.Reaches (selector { settings := c }) source root p →
          (e.reload c).Recalls source p →
          relativePath { settings := e.settings } ⟨[]⟩ p.text = relativePath { settings := c } ⟨[]⟩ p.text) := by
  have system : source.faults.SystemOnly := by simp [calm, Faults.SystemOnly]
  obtain ⟨w, walked, members, -⟩ := Walk.collectOnce (selector { settings := c }) tree system
  have files : ∀ p ∈ w.found, p.Proper ∧ ∃ content, Reloaded e c source p content
      ((e.reload c).scanFile source p).1 (({ settings := c } : Engine).scanFile source p).1 := by
    intro p member
    obtain ⟨root, -, reaches⟩ := (members p).mp member
    obtain ⟨proper, content, mtime, file⟩ := reaches.isFile tree
    exact ⟨proper, content, fileReloaded c correct calm proper file⟩
  have proper : ∀ p ∈ w.found, p.Proper := fun p member => (files p member).1
  have scanned := scanWorkspaceCollects (e := e.reload c) now idle sized proper walked
    (fun p member => (files p member).2.choose_spec.coded.1)
  have restarted := scanWorkspaceCollects (e := { settings := c }) now rfl sized proper walked
    (fun p member => (files p member).2.choose_spec.coded.2)
  have findings : w.found.flatMap (fun p => found (({ settings := c } : Engine).scanFile source p).1) =
      (w.found.flatMap (fun p => found ((e.reload c).scanFile source p).1)).map (relocate c) := by
    rw [List.map_flatMap]
    exact List.flatMap_congr fun p member => (files p member).2.choose_spec.found
  have troubles : w.found.filterMap (fun p => trouble now p (({ settings := c } : Engine).scanFile source p).1) =
      w.found.filterMap (fun p => trouble now p ((e.reload c).scanFile source p).1) :=
    List.filterMap_congr fun p member => (files p member).2.choose_spec.trouble now
  refine ⟨_, scanned, ?_, ?_⟩
  · rw [restarted, findings, troubles]
    simp [ScanResult.ofParts, sortRelocated]
  · have sorted := relocatedIff correct files
    simp only [ScanResult.ofParts, Finding.sort, List.mem_mergeSort]
    rw [sorted]
    constructor
    · exact fun same root known p reaches => same p ((members p).mpr ⟨root, known, reaches⟩)
    · intro same p member
      obtain ⟨root, known, reaches⟩ := (members p).mp member
      exact same root known p reaches

end

theorem reloadedScanIff (old c : Settings) (start : Source) (acts : List Act) (now : String)
    (untouched : Untouched old start acts) (sized : 0 < c.limits.batchSize)
    (tree : (performAll { settings := old } start acts).2.disk.Tree)
    (calm : (performAll { settings := old } start acts).2.faults = {}) :
    let (e, source) := performAll { settings := old } start acts
    let fresh : Engine := { settings := c }
    ∃ result, ((e.reload c).scanWorkspace source now).1 = .ok result ∧
      (fresh.scanWorkspace source now).1 =
        .ok { result with findings := result.findings.map (relocate c) } ∧
      (((e.reload c).scanWorkspace source now).1 = (fresh.scanWorkspace source now).1 ↔
        ∀ root ∈ c.scan.roots, ∀ p, Walk.Reaches fresh.selector source root p →
          (e.reload c).Recalls source p →
          relativePath { settings := old } ⟨[]⟩ p.text = relativePath fresh ⟨[]⟩ p.text) := by
  have correct := untouchedCorrect untouched tree
  have fixed : (performAll { settings := old } start acts).1.settings = old :=
    (settingsKept old).performAll (fun _ _ _ _ => id) rfl
  have idle := @performAllIdle { settings := old } start acts rfl
  obtain ⟨result, scanned, restarted, alike⟩ := reloadedWorkspace c now idle correct sized tree calm
  refine ⟨result, scanned, restarted, ?_⟩
  rw [fixed] at alike
  rw [scanned, restarted, ← alike, ← relocatedSame]
  constructor
  · exact fun same => congrArg ScanResult.findings (Except.ok.inj same)
  · exact fun same => by rw [← same]

theorem scannedUntouched (settings : Settings) (start : Source) (now : String) :
    Untouched settings start [.scanWorkspace now] := by
  intro path entry cached
  refine ⟨[], _, rfl, by simp [performAll, Cache.get?], fun d member p _ => ?_⟩
  obtain rfl : d = start.disk := by simpa [disksOf, Act.disk?, performAll] using member
  have same := (diskKept start.disk).scanWorkspace (e := { settings }) now rfl
  rw [performAll, performAll, perform, same]

def oneFile : Source := { disk := { nodes := Watch.State.oneFolder } }

theorem oneFileTree : oneFile.disk.Tree := ⟨by decide +kernel, by decide +kernel⟩

theorem newRulesRescan :
    let (e, source) := performAll { settings := rooted [⟨["w"]⟩] } oneFile [.scanWorkspace "t"]
    let c := (Watch.State.excluding "lib/**" []).engine.settings
    ((e.reload c).scanWorkspace source "u").1 = (({ settings := c } : Engine).scanWorkspace source "u").1 ∧
      ((e.reload c).scanWorkspace source "u").1.map ScanResult.total = .ok 1 := by
  have same := (diskKept oneFile.disk).scanWorkspace (e := { settings := rooted [⟨["w"]⟩] }) "t" rfl
  obtain ⟨result, -, -, alike⟩ := reloadedScanIff (rooted [⟨["w"]⟩])
    (Watch.State.excluding "lib/**" []).engine.settings oneFile [.scanWorkspace "t"] "u"
    (scannedUntouched _ _ _) (by decide) (by rw [performAll, performAll, perform, same]; exact oneFileTree)
    (by decide +kernel)
  exact ⟨alike.mpr fun _ _ _ _ _ => rfl, by decide +kernel⟩

theorem cachedFindingKeepsRoot :
    let (e, source) := performAll { settings := rooted [⟨["w"]⟩] } oneFile [.scanWorkspace "t"]
    let c := rooted [⟨["w", "gen"]⟩]
    Untouched (rooted [⟨["w"]⟩]) oneFile [.scanWorkspace "t"] ∧
      ((e.reload c).scanWorkspace source "u").1.map (fun r => r.findings.map Finding.relativePath) =
        .ok ["gen/a.php"] ∧
      (({ settings := c } : Engine).scanWorkspace source "u").1.map
        (fun r => r.findings.map Finding.relativePath) = .ok ["a.php"] :=
  ⟨scannedUntouched _ _ _, by decide +kernel, by decide +kernel⟩

end Engine
end DebugSweep
