import DebugSweep.Proofs.Accesses
import DebugSweep.Proofs.Convergence
import DebugSweep.Proofs.Protection
import DebugSweep.Proofs.Walking

/-! Confinement to the scan roots. Main statement: whatever requests ask for, a server whose roots are
directories reads no file for a scan, and reads, writes, moves and removes none when it clears, that is
not at a root or below one. -/
namespace DebugSweep
namespace Engine

structure Confined (roots : List AbsPath) (e : Engine) (source : Source) : Prop where
  settings : e.settings.scan.roots = roots
  grounded : source.disk.Grounded roots
  cached : ∀ entry ∈ e.cache.entries, ∀ f ∈ entry.findings, f.LiesIn roots
  last : ∀ result ∈ e.last, ∀ f ∈ result.findings, f.LiesIn roots
  reads : ∀ path ∈ source.reads, ∃ p : AbsPath, path = p.text ∧ p.Within roots

section
variable {roots : List AbsPath} {e : Engine} {source : Source} {p : AbsPath}

theorem fileInside {content : ByteArray} (grounded : source.disk.Grounded roots) (within : p.Within roots)
    (file : contentOf? source.disk p = some content) : p.Inside roots := by
  obtain ⟨root, member, along⟩ := within.below
  refine ⟨within.proper, root, member, along, ?_⟩
  rintro rfl
  have directory := grounded.roots root member root (List.prefix_refl _)
  simp [contentOf?, directory] at file

theorem Confined.forget (confined : e.Confined roots source) (path : String) :
    Confined roots { e with cache := e.cache.discard path } source :=
  ⟨confined.settings, confined.grounded,
    fun entry member => confined.cached entry (List.mem_filter.mp member).1, confined.last, confined.reads⟩

theorem Confined.failed (confined : e.Confined roots source) (p : AbsPath) (fault : Fault) :
    (e.failed p fault).2.Confined roots source := by
  unfold Engine.failed
  split
  · exact confined.forget p.text
  · exact confined

theorem Confined.readText (confined : e.Confined roots source) (within : p.Within roots) :
    e.Confined roots (source.readText p).2 := by
  refine ⟨confined.settings, confined.grounded, confined.cached, confined.last, ?_⟩
  intro path member
  rcases List.mem_cons.mp member with rfl | old
  · exact ⟨p, rfl, within⟩
  · exact confined.reads path old

theorem Confined.absorb (confined : e.Confined roots source) (within : p.Within roots) (stat : FileStat) :
    (e.absorb p stat (source.readText p).1).2.Confined roots (source.readText p).2 ∧
      ∀ f ∈ found (e.absorb p stat (source.readText p).1).1, f.LiesIn roots := by
  have noted := confined.readText within
  cases read : (source.readText p).1 with
  | error fault =>
    refine ⟨noted.failed p fault, ?_⟩
    change ∀ f ∈ found (e.failed p fault).1, _
    rw [failedReported]
    simp [found]
  | ok text =>
    obtain ⟨content, held, rfl⟩ := textFound read
    have lies : ∀ f ∈ Scan.text ⟨p.text, e.relativePath ⟨[]⟩ p.text⟩ (Source.textOf content),
        f.LiesIn roots := fun f member =>
      ⟨p, Clear.textFile f member, fileInside confined.grounded within held⟩
    refine ⟨⟨noted.settings, noted.grounded, ?_, noted.last, noted.reads⟩, lies⟩
    intro entry member
    rcases List.mem_cons.mp member with rfl | old
    · exact lies
    · exact confined.cached entry (List.mem_filter.mp old).1

theorem Confined.scanFile (confined : e.Confined roots source) (within : p.Within roots) :
    (e.scanFile source p).2.1.Confined roots (e.scanFile source p).2.2 ∧
      ∀ f ∈ found (e.scanFile source p).1, f.LiesIn roots := by
  cases sized : source.stat p with
  | error fault =>
    rw [scanFileUnsized sized, failedReported]
    exact ⟨confined.failed p fault, by simp [found]⟩
  | ok stat =>
    by_cases large : e.settings.limits.maxFileBytes < stat.size
    · rw [scanFileLarge sized large]
      exact ⟨confined.forget p.text, by simp [found]⟩
    · cases hit : e.cache.lookup? p.text (fingerprint stat.size stat.mtime) with
      | some findings =>
        rw [scanFileHit sized large hit]
        obtain ⟨entry, member, -, -, rfl⟩ := lookupEntry hit
        exact ⟨confined, confined.cached entry member⟩
      | none =>
        rw [scanFileMiss sized large hit]
        exact confined.absorb within stat

theorem Confined.scanBatch {paths : List AbsPath} (confined : e.Confined roots source)
    (within : ∀ p ∈ paths, p.Within roots) (done : List Outcome)
    (before : ∀ outcome ∈ done, ∀ f ∈ found outcome, f.LiesIn roots) :
    (e.scanBatch source done paths).2.1.Confined roots (e.scanBatch source done paths).2.2 ∧
      ∀ outcome ∈ (e.scanBatch source done paths).1, ∀ f ∈ found outcome, f.LiesIn roots := by
  induction paths generalizing e source done with
  | nil => exact ⟨confined, by simpa [Engine.scanBatch] using before⟩
  | cons p rest ih =>
    obtain ⟨here, later⟩ := List.forall_mem_cons.mp within
    obtain ⟨next, lies⟩ := confined.scanFile here
    exact ih next later _ (List.forall_mem_cons.mpr ⟨lies, before⟩)

theorem addHolds {holds : Finding → Prop} {now : String} {scanned : List (AbsPath × Outcome)} {tally tally' : Tally}
    (outcomes : ∀ pair ∈ scanned, ∀ f ∈ found pair.2, holds f)
    (before : ∀ f ∈ tally.findings, holds f) (added : tally.add now scanned = .ok tally') :
    ∀ f ∈ tally'.findings, holds f := by
  induction scanned generalizing tally with
  | nil =>
    cases added
    exact before
  | cons pair rest ih =>
    obtain ⟨here, later⟩ := List.forall_mem_cons.mp outcomes
    obtain ⟨p, findings | fault⟩ := pair
    · rw [Tally.add] at added
      split at added
      · refine ih later ?_ added
        exact before
      · contradiction
    · rw [Tally.add] at added
      refine ih later ?_ added
      intro f member
      rcases List.mem_append.mp member with new | old
      · exact here f (List.mem_reverse.mp new)
      · exact before f old

theorem Confined.scanBatches {paths : List AbsPath} (confined : e.Confined roots source)
    (within : ∀ p ∈ paths, p.Within roots) (now : String) (fuel : Nat) (tally : Tally)
    (before : ∀ f ∈ tally.findings, f.LiesIn roots) :
    (e.scanBatches source now tally fuel paths).2.1.Confined roots
        (e.scanBatches source now tally fuel paths).2.2 ∧
      ∀ tally', (e.scanBatches source now tally fuel paths).1 = .ok tally' →
        ∀ f ∈ tally'.findings, f.LiesIn roots := by
  have finished : ∀ tally', Except.ok (ε := Fault) tally = .ok tally' →
      ∀ f ∈ tally'.findings, f.LiesIn roots := by
    rintro tally' ⟨⟩
    exact before
  induction fuel generalizing e source tally paths with
  | zero => exact ⟨confined, finished⟩
  | succ fuel ih =>
    cases filled : paths with
    | nil => exact ⟨confined, finished⟩
    | cons p rest =>
      rw [scanBatches, ← filled]
      dsimp only
      obtain ⟨next, lies⟩ := confined.scanBatch
        (fun q (member : q ∈ paths.take e.settings.limits.batchSize) =>
          within q (List.mem_of_mem_take member)) [] (by simp)
      split
      · exact ⟨next, by simp⟩
      · rename_i tally' added
        have gathered := addHolds (fun pair member => lies pair.2 (List.of_mem_zip member).2) before added
        exact ih next (fun q member => within q (List.mem_of_mem_drop member)) _ gathered (by
          rintro tally'' ⟨⟩
          exact gathered)

theorem Confined.settle {result : Except Fault ScanResult} (confined : e.Confined roots source)
    (lies : ∀ r, result = .ok r → ∀ f ∈ r.findings, f.LiesIn roots) :
    (e.settle result).Confined roots source := by
  cases result with
  | error fault => exact ⟨confined.settings, confined.grounded, confined.cached, confined.last, confined.reads⟩
  | ok r =>
    refine ⟨confined.settings, confined.grounded, confined.cached, ?_, confined.reads⟩
    rintro r' ⟨⟩
    exact lies r rfl

theorem Confined.running (confined : e.Confined roots source) :
    Confined roots { e with scanning := true } source :=
  ⟨confined.settings, confined.grounded, confined.cached, confined.last, confined.reads⟩

theorem Confined.scanPaths {paths : List AbsPath} (confined : e.Confined roots source)
    (within : ∀ p ∈ paths, p.Within roots) (now : String) (prior : List ScanError) :
    (e.scanPaths source now paths prior).2.1.Confined roots (e.scanPaths source now paths prior).2.2 ∧
      ∀ r, (e.scanPaths source now paths prior).1 = .ok r → ∀ f ∈ r.findings, f.LiesIn roots := by
  obtain ⟨next, lies⟩ := confined.scanBatches within now paths.length { errors := prior.reverse } (by simp)
  refine ⟨next, ?_⟩
  intro r scanned f member
  unfold Engine.scanPaths at scanned
  dsimp only at scanned
  cases gathered : (e.scanBatches source now { errors := prior.reverse } paths.length paths).1 with
  | error fault =>
    rw [gathered] at scanned
    contradiction
  | ok tally =>
    rw [gathered] at scanned
    cases scanned
    exact lies tally gathered f (List.mem_reverse.mp (List.mem_mergeSort.mp member))

theorem Confined.scanFiles {paths : List String} (confined : e.Confined roots source)
    (within : ∀ path ∈ paths, ∃ p : AbsPath, path = p.text ∧ p.Within roots) (now : String) :
    (e.scanFiles source now paths).2.1.Confined roots (e.scanFiles source now paths).2.2 := by
  have leads : ∀ path ∈ paths, ∃ p, Path.resolve source.disk.here path = .ok p := by
    intro path member
    obtain ⟨p, rfl, here⟩ := within path member
    exact ⟨p, here.proper.resolved⟩
  obtain ⟨places, resolved⟩ := mapDone leads
  have wants := distinctWanted e source.disk.here (resolveAbsolute confined.grounded.home paths) resolved
  unfold Engine.scanFiles scanFilesBy
  split
  · exact confined
  · dsimp only
    rw [resolved]
    obtain ⟨next, lies⟩ := confined.running.scanPaths (fun p member => by
      obtain ⟨⟨path, asked, leads⟩, -⟩ := (wants.members p).mp member
      obtain ⟨q, rfl, here⟩ := within path asked
      rw [here.proper.resolved] at leads
      cases leads
      exact here) now []
    exact next.settle lies

end
end Engine

namespace Walk
variable {roots : List AbsPath} {sel : Selector} {source : Source} {w w' : Walk}

structure Confined (roots : List AbsPath) (w : Walk) : Prop where
  stack : ∀ p ∈ w.stack, p.Within roots
  found : ∀ p ∈ w.found, p.Within roots

theorem chosenWithin {dir : AbsPath} {entries : List (String × EntryKind)} {kind : EntryKind} {rule : AbsPath → Bool}
    (grounded : source.disk.Grounded roots) (within : dir.Within roots)
    (listed : source.listDir dir = .ok entries) : ∀ p ∈ chosen dir kind rule entries, p.Within roots := by
  intro p member
  obtain ⟨name, entry, rfl, -⟩ := chosenMember.mp member
  obtain ⟨n, known, same⟩ := entryNode listed entry
  obtain ⟨root, given, along⟩ := within.below
  exact ⟨same ▸ grounded.nodes n known, root, given, along.trans (List.prefix_append _ _)⟩

theorem Confined.step (confined : w.Confined roots) (grounded : source.disk.Grounded roots)
    (stepped : w.step sel source = .ok w') : w'.Confined roots := by
  unfold Walk.step at stepped
  split at stepped
  · cases stepped
    exact confined
  · rename_i p stack filled
    obtain ⟨here, later⟩ := List.forall_mem_cons.mp (filled ▸ confined.stack)
    split at stepped
    · rename_i entries listed
      cases stepped
      rw [enterChosen]
      constructor
      · exact List.forall_mem_append.mpr ⟨chosenWithin grounded here listed, later⟩
      · exact List.forall_mem_append.mpr ⟨chosenWithin grounded here listed, confined.found⟩
    · cases stepped
      exact ⟨later, confined.found⟩
    · contradiction

theorem Confined.run {fuel : Nat} (confined : w.Confined roots) (grounded : source.disk.Grounded roots)
    (ran : Walk.run sel source fuel w = .ok w') : w'.Confined roots := by
  induction fuel generalizing w with
  | zero =>
    cases ran
    exact confined
  | succ fuel ih =>
    unfold Walk.run at ran
    split at ran
    · cases ran
      exact confined
    · split at ran
      · rename_i next stepped
        exact ih (confined.step grounded stepped) ran
      · contradiction

theorem collectWithin (known : sel.roots = roots) (grounded : source.disk.Grounded roots)
    (collected : collect sel source = .ok w) : ∀ p ∈ w.found, p.Within roots := by
  obtain ⟨last, ran, same⟩ := bindOkIff.mp collected
  have start : (Walk.start sel).Confined roots := by
    refine ⟨?_, by simp [Walk.start]⟩
    intro root member
    have given : root ∈ roots := known ▸ member
    exact ⟨grounded.found (grounded.roots root given root (List.prefix_refl _)), root, given,
      List.prefix_refl _⟩
  cases same
  intro p member
  exact (start.run grounded ran).found p (List.mem_mergeSort.mp member)

end Walk

namespace Engine

theorem Confined.scanWorkspace {roots : List AbsPath} {e : Engine} {source : Source}
    (confined : e.Confined roots source) (now : String) :
    (e.scanWorkspace source now).2.1.Confined roots (e.scanWorkspace source now).2.2 ∧
      ∀ r, (e.scanWorkspace source now).1 = .ok r → ∀ f ∈ r.findings, f.LiesIn roots := by
  unfold Engine.scanWorkspace
  split
  · refine ⟨confined, ?_⟩
    rintro r ⟨⟩
    simp [ScanResult.empty]
  · dsimp only
    split
    · exact ⟨confined.running.settle (by simp), by simp⟩
    · rename_i w collected
      have within := Walk.collectWithin (by exact confined.settings) confined.grounded collected
      obtain ⟨next, lies⟩ := confined.running.scanPaths within now (walkErrors now w)
      exact ⟨next.settle lies, lies⟩

end Engine
namespace Path

theorem belowWithin {roots : List AbsPath} {p : AbsPath} (proper : p.Proper)
    (below : roots.any (fun root => (root.below? p).isSome) = true) : p.Within roots := by
  obtain ⟨root, member, along⟩ := List.any_eq_true.mp below
  refine ⟨proper, root, member, ?_⟩
  by_contra outside
  rw [Option.isNone_iff_eq_none.mp (Disk.belowIff.mpr outside)] at along
  contradiction

theorem inWorkspaceWithin {here place : AbsPath} {roots : List AbsPath} {candidate : String}
    (home : here.Proper) (proper : ∀ root ∈ roots, root.Proper)
    (found : inWorkspace here roots candidate = .ok place) : place.Within roots := by
  cases roots with
  | nil => contradiction
  | cons first rest =>
    have checked : ∀ p : AbsPath, p.Proper →
        (if (first :: rest).any (fun root => (root.below? p).isSome) then pure p
          else throw (.blocked .outside) : Except Fault AbsPath) = .ok place →
        place.Within (first :: rest) := by
      intro p named kept
      split at kept
      · rename_i below
        cases kept
        exact belowWithin named below
      · cases kept
    unfold inWorkspace at found
    dsimp only at found
    generalize forwardSlashes (Text.stripText candidate) = wanted at found
    split at found
    · contradiction
    · split at found
      · obtain ⟨p, leads, kept⟩ := bindOkIff.mp found
        exact checked p (resolveProper home leads) kept
      · split at found
        · contradiction
        · obtain ⟨p, leads, kept⟩ := bindOkIff.mp found
          exact checked p (resolveProper (proper first List.mem_cons_self) leads) kept

end Path

namespace Site

def watchFound (s : Site) (now : String) (findings : List Finding) : Reply × List Access :=
  let (cleared, w) := (Watched.mk s.disk []).fromFiles findings s.server.bookmarks.ids
  let s' := s.withDisk w.disk
  match cleared with
  | .error fault => ((.error fault, s'), w.log)
  | .ok report =>
      if report.filesChanged.isEmpty then ((.ok report.toValue, s'), w.log)
      else
        let (result, s'') := s'.scanWorkspace now
        ((result.map (fun _ => report.toValue), s''), w.log)

def watchClear (s : Site) (now : String) (args : Arguments) : Reply × List Access :=
  if !namesTargets args then ((.error (unfit "debug.clear needs one of ids, path or all=true."), s), [])
  else
    let (current, s') := s.currentFindings now
    match current >>= s'.clearTargets args with
    | .error fault => ((.error fault, s'), [])
    | .ok findings => s'.watchFound now findings

theorem watchFoundSame (s : Site) (now : String) (findings : List Finding) :
    (s.watchFound now findings).1 = s.clearFound now findings := by
  unfold watchFound clearFound
  rw [Watched.fromFilesSame ⟨s.disk, []⟩]
  dsimp only
  cases ((Watched.mk s.disk []).fromFiles findings s.server.bookmarks.ids).1 with
  | error fault => rfl
  | ok report =>
    dsimp only
    cases report.filesChanged.isEmpty with
    | true => rfl
    | false => rfl

theorem watchClearSame (s : Site) (now : String) (args : Arguments) :
    (s.watchClear now args).1 = s.clearTool now args := by
  unfold watchClear clearTool
  cases namesTargets args with
  | false => rfl
  | true =>
    dsimp only [Bool.not_true]
    cases (s.currentFindings now).1 >>= (s.currentFindings now).2.clearTargets args with
    | error fault => rfl
    | ok findings => exact watchFoundSame _ now findings

def accessesOf (s : Site) (now : String) (payload : Value) : List Access :=
  match s.called? payload with
  | some (.clear, args) => ((s.parse payload).2.watchClear now args).2
  | _ => []

def accesses (s : Site) : List (String × Value) → List Access
  | [] => []
  | (now, payload) :: rest => s.accessesOf now payload ++ (s.handle now payload).2.accesses rest

structure Confined (roots : List AbsPath) (s : Site) : Prop where
  settings : s.server.settings.scan.roots = roots
  engine : s.server.engine.Confined roots s.source
  journal : s.server.journal.Proper
  bookmarks : s.server.bookmarks.path.Proper
  excludes : s.server.excludes.path.Proper

section
variable {roots : List AbsPath} {s s' : Site}

theorem Confined.withDisk (confined : s.Confined roots) {d : Disk} (grounded : d.Grounded roots) :
    (s.withDisk d).Confined roots :=
  ⟨confined.settings, ⟨confined.engine.settings, grounded, confined.engine.cached, confined.engine.last,
    confined.engine.reads⟩, confined.journal, confined.bookmarks, confined.excludes⟩

theorem Confined.withEngine (confined : s.Confined roots) {e : Engine} {source : Source}
    (engine : e.Confined roots source) : (s.withEngine e source).Confined roots :=
  ⟨confined.settings, engine, confined.journal, confined.bookmarks, confined.excludes⟩

theorem Confined.scanWorkspace (confined : s.Confined roots) (now : String) :
    (s.scanWorkspace now).2.Confined roots ∧
      ∀ r, (s.scanWorkspace now).1 = .ok r → ∀ f ∈ r.findings, f.LiesIn roots := by
  obtain ⟨engine, lies⟩ := confined.engine.scanWorkspace now
  exact ⟨confined.withEngine engine, lies⟩

theorem Confined.currentFindings (confined : s.Confined roots) (now : String) :
    (s.currentFindings now).2.Confined roots ∧
      ∀ findings, (s.currentFindings now).1 = .ok findings → ∀ f ∈ findings, f.LiesIn roots := by
  unfold Site.currentFindings
  split
  · rename_i result last
    refine ⟨confined, ?_⟩
    rintro findings ⟨⟩
    exact confined.engine.last result last
  · obtain ⟨next, lies⟩ := confined.scanWorkspace now
    refine ⟨next, ?_⟩
    intro findings scanned
    dsimp only at scanned
    cases given : (s.scanWorkspace now).1 with
    | error fault =>
      rw [given] at scanned
      contradiction
    | ok result =>
      rw [given] at scanned
      cases scanned
      exact lies result given

theorem clearTargetsSubset {args : Arguments} {findings targets : List Finding}
    (named : s.clearTargets args findings = .ok targets) : ∀ f ∈ targets, f ∈ findings := by
  unfold clearTargets at named
  dsimp only at named
  split at named
  · split at named
    · cases named
      exact fun f member => member
    · obtain ⟨byId, same, rest⟩ := bindOkIff.mp named
      obtain ⟨target, -, last⟩ := bindOkIff.mp rest
      cases same
      cases last
      exact fun f member => (List.mem_filter.mp member).1
    · contradiction
  · split at named
    · split at named
      · cases named
        exact fun f member => (List.mem_filter.mp member).1
      · obtain ⟨byId, same, rest⟩ := bindOkIff.mp named
        obtain ⟨target, -, last⟩ := bindOkIff.mp rest
        cases same
        cases last
        exact fun f member => (List.mem_filter.mp (List.mem_filter.mp member).1).1
      · contradiction
    · contradiction

theorem Confined.watchFound (confined : s.Confined roots) (now : String) {findings : List Finding}
    (lies : ∀ f ∈ findings, f.LiesIn roots) :
    (s.watchFound now findings).1.2.Confined roots ∧
      ∀ access ∈ (s.watchFound now findings).2, ∀ p ∈ access.places, p.Within roots := by
  have stays := @Watched.fromFilesStays .willing roots ⟨s.disk, []⟩ findings lies s.server.bookmarks.ids
  have touched : ∀ access ∈ ((Watched.mk s.disk []).fromFiles findings s.server.bookmarks.ids).2.log,
      ∀ p ∈ access.places, p.Within roots := by
    intro access member
    rcases stays.touched access member with old | new
    · simp at old
    · exact new
  have cleared := confined.withDisk (stays.grounded confined.engine.grounded)
  unfold Site.watchFound
  dsimp only
  split
  · exact ⟨cleared, touched⟩
  · split
    · exact ⟨cleared, touched⟩
    · exact ⟨(cleared.scanWorkspace now).1, touched⟩

theorem Confined.watchClear (confined : s.Confined roots) (now : String) (args : Arguments) :
    (s.watchClear now args).1.2.Confined roots ∧
      ∀ access ∈ (s.watchClear now args).2, ∀ p ∈ access.places, p.Within roots := by
  unfold Site.watchClear
  split
  · exact ⟨confined, by simp⟩
  · obtain ⟨next, lies⟩ := confined.currentFindings now
    dsimp only
    split
    · exact ⟨next, by simp⟩
    · rename_i findings named
      obtain ⟨current, given, targets⟩ := bindOkIff.mp named
      exact next.watchFound now (fun f member => lies current given f (clearTargetsSubset targets f member))

theorem Confined.clearTool (confined : s.Confined roots) (now : String) (args : Arguments) :
    (s.clearTool now args).2.Confined roots := by
  rw [← watchClearSame]
  exact (confined.watchClear now args).1

theorem Confined.scanFilesTool (confined : s.Confined roots) (now : String) (args : Arguments) :
    (s.scanFilesTool now args).2.Confined roots := by
  have grounded := confined.engine.grounded
  have proper : ∀ root ∈ roots, root.Proper := fun root member =>
    grounded.found (grounded.roots root member root (List.prefix_refl _))
  unfold Site.scanFilesTool
  split
  · exact confined
  · rename_i hidden paths requested
    refine confined.withEngine (confined.engine.scanFiles ?_ now)
    unfold requestedFiles at requested
    split at requested
    · contradiction
    · obtain ⟨kinds, -, rest⟩ := bindOkIff.mp requested
      obtain ⟨places, resolved, last⟩ := bindOkIff.mp rest
      cases last
      intro path member
      obtain ⟨p, listed, rfl⟩ := List.mem_map.mp member
      obtain ⟨candidate, -, found⟩ := mapSource resolved p listed
      rw [confined.settings] at found
      exact ⟨p, rfl, Path.inWorkspaceWithin grounded.home proper found⟩

theorem Confined.bookmarkTool (confined : s.Confined roots) (args : Arguments) :
    (s.bookmarkTool args).2.Confined roots := by
  unfold Site.bookmarkTool
  split
  · split
    · exact confined
    · have saved (texts : List String) :=
        confined.withDisk (confined.engine.grounded.save confined.bookmarks texts)
      exact ⟨confined.settings, (saved _).engine, confined.journal, confined.bookmarks, confined.excludes⟩
  · exact confined

theorem excludesUpdateGrounded {d : Disk} (x : Excludes) (grounded : d.Grounded roots)
    (proper : x.path.Proper) (patterns : List String) (add : Bool) :
    (x.update d patterns add).2.1.path = x.path ∧ (x.update d patterns add).2.2.Grounded roots := by
  unfold Excludes.update
  dsimp only
  generalize (if add then Settings.addNew x.patterns patterns
    else Excludes.removed x.patterns patterns) = patterns'
  split
  · exact ⟨rfl, grounded⟩
  · exact ⟨rfl, grounded.save proper _⟩

theorem Confined.excludeTool (confined : s.Confined roots) (now : String) (args : Arguments) :
    (s.excludeTool now args).2.Confined roots := by
  unfold Site.excludeTool
  split
  · exact confined
  · rename_i pattern add _
    obtain ⟨path, grounded⟩ := excludesUpdateGrounded s.server.excludes confined.engine.grounded
      confined.excludes [pattern] add
    have saved := confined.withDisk grounded
    have updated : (Site.withDisk { s with server := { s.server with
        excludes := (s.server.excludes.update s.disk [pattern] add).2.1 } }
        (s.server.excludes.update s.disk [pattern] add).2.2).Confined roots :=
      ⟨saved.settings, saved.engine, saved.journal, saved.bookmarks, path.symm ▸ saved.excludes⟩
    dsimp only
    split
    · exact updated
    · refine (Confined.scanWorkspace ?_ now).1
      exact updated.withEngine ⟨confined.settings, updated.engine.grounded, updated.engine.cached,
        updated.engine.last, updated.engine.reads⟩

theorem Confined.call (confined : s.Confined roots) (now : String) (args : Arguments) (tool : Tool) :
    (s.call now args tool).2.Confined roots := by
  cases tool with
  | status => exact confined
  | scanWorkspace =>
    unfold Site.call scanWorkspaceTool
    dsimp only
    split
    · exact confined
    · exact (confined.scanWorkspace now).1
  | scanFiles => exact confined.scanFilesTool now args
  | insertDump => exact confined
  | clear => exact confined.clearTool now args
  | bookmark => exact confined.bookmarkTool args
  | bookmarks => exact confined
  | exclude => exact confined.excludeTool now args
  | exportFindings =>
    unfold Site.call exportTool
    dsimp only
    split
    · exact confined
    · exact (confined.currentFindings now).1
  | auditLog => exact confined

theorem parseCounts (s : Site) (payload : Value) :
    ∃ count, (s.parse payload).2 = { s with server := { s.server with unnamed := count } } := by
  have same : s = { s with server := { s.server with unnamed := s.server.unnamed } } := rfl
  have named : ∀ value, ∃ count, (s.idOf value).2 = { s with server := { s.server with unnamed := count } } := by
    intro value
    unfold idOf
    split
    · split
      · exact ⟨_, rfl⟩
      · exact ⟨_, same⟩
    · exact ⟨_, same⟩
    · exact ⟨_, rfl⟩
  unfold parse
  split
  · rename_i fields
    dsimp only
    split
    · split
      · exact named _
      · split <;> exact named _
    · exact named _
  · exact ⟨_, rfl⟩

theorem Confined.parse (confined : s.Confined roots) (payload : Value) :
    (s.parse payload).2.Confined roots := by
  obtain ⟨count, same⟩ := parseCounts s payload
  rw [same]
  exact ⟨confined.settings, confined.engine, confined.journal, confined.bookmarks, confined.excludes⟩

theorem Confined.noted (confined : s.Confined roots) (noted : Noted s s') : s'.Confined roots := by
  cases noted with
  | silent => exact confined
  | written appended =>
    exact confined.withDisk (confined.engine.grounded.append confined.journal (mapErrorOk appended))

theorem Confined.handle (confined : s.Confined roots) (now : String) (payload : Value) :
    (s.handle now payload).2.Confined roots := by
  rcases handleNoted s now payload with ⟨_, noted⟩ | ⟨tool, args, _, noted⟩
  · exact (confined.parse payload).noted noted
  · exact ((confined.parse payload).call now args tool).noted noted

theorem Confined.accessesOf (confined : s.Confined roots) (now : String) (payload : Value) :
    ∀ access ∈ s.accessesOf now payload, ∀ p ∈ access.places, p.Within roots := by
  unfold Site.accessesOf
  split
  · exact ((confined.parse payload).watchClear now _).2
  · simp

theorem Confined.after (confined : s.Confined roots) (requests : List (String × Value)) :
    (s.after requests).Confined roots ∧
      ∀ access ∈ s.accesses requests, ∀ p ∈ access.places, p.Within roots := by
  induction requests generalizing s with
  | nil => exact ⟨confined, by simp [accesses]⟩
  | cons request rest ih =>
    obtain ⟨now, payload⟩ := request
    obtain ⟨last, later⟩ := ih (confined.handle now payload)
    exact ⟨last, List.forall_mem_append.mpr ⟨confined.accessesOf now payload, later⟩⟩

theorem createdConfined {settings : Settings} {d d' : Disk} {server : Server}
    (created : Server.create settings d = .ok (server, d')) (grounded : d.Grounded settings.scan.roots)
    (data : settings.dataDir.Proper) (faults : Faults) :
    Confined settings.scan.roots ⟨server, { disk := d', faults := faults }⟩ := by
  obtain ⟨excludes, excluded, rest⟩ := bindOkIff.mp created
  obtain ⟨bookmarks, marked, rest⟩ := bindOkIff.mp rest
  obtain ⟨d₁, prepared, last⟩ := bindOkIff.mp rest
  obtain ⟨patterns, -, kept⟩ := bindOkIff.mp excluded
  obtain ⟨ids, -, stored⟩ := bindOkIff.mp marked
  cases last
  cases kept
  cases stored
  have made : d'.Grounded settings.scan.roots :=
    grounded.makeDirs (data.child (by decide)).parent (mapErrorOk prepared)
  exact ⟨rfl, ⟨rfl, made, by simp, by simp, by simp⟩, data.child (by decide), data.child (by decide),
    data.child (by decide)⟩

theorem requestsConfined {settings : Settings} {d d' : Disk} {server : Server}
    (created : Server.create settings d = .ok (server, d')) (grounded : d.Grounded settings.scan.roots)
    (data : settings.dataDir.Proper) (faults : Faults) (requests : List (String × Value)) :
    (∀ path ∈ (after ⟨server, { disk := d', faults := faults }⟩ requests).source.reads,
      ∃ p : AbsPath, path = p.text ∧ p.Within settings.scan.roots) ∧
    ∀ access ∈ accesses ⟨server, { disk := d', faults := faults }⟩ requests,
      ∀ p ∈ access.places, p.Within settings.scan.roots := by
  obtain ⟨last, touched⟩ := (createdConfined created grounded data faults).after requests
  exact ⟨last.engine.reads, touched⟩

end

def oneDump : Disk :=
  { nodes := [(⟨["w"]⟩, .dir), (⟨["w", "a.php"]⟩, .file "dd(1);".toUTF8 1), (⟨["data"]⟩, .dir)]
    here := ⟨["w"]⟩ }

def oneDumpSettings : Settings := { Settings.default ⟨["w"]⟩ with dataDir := ⟨["data"]⟩ }

def oneDumpServer : Server :=
  { settings := oneDumpSettings
    excludes := ⟨⟨["data", "excludes.json"]⟩, []⟩
    engine := { settings := oneDumpSettings }
    bookmarks := ⟨⟨["data", "bookmarks.json"]⟩, []⟩
    journal := ⟨["data", "audit.jsonl"]⟩ }

def scanAround : List (String × Value) :=
  ["C:\\..\\a.php", "../data/audit.jsonl"].map (fun path =>
    ("t", .record [("method", .text "debug.scan_files"), ("params", .record [("paths", .list [.text path])])]))

theorem drivePathConfined :
    accesses ⟨oneDumpServer, { disk := oneDump }⟩ (scanAround ++ [("t", clearAll)]) =
      [.read ⟨["w", "a.php"]⟩, .write ⟨["w", "a.php.tmp"]⟩,
        .replace ⟨["w", "a.php.tmp"]⟩ ⟨["w", "a.php"]⟩] ∧
    (∀ path ∈ (after ⟨oneDumpServer, { disk := oneDump }⟩ (scanAround ++ [("t", clearAll)])).source.reads,
      ∃ p : AbsPath, path = p.text ∧ p.Within [⟨["w"]⟩]) ∧
    ∀ access ∈ accesses ⟨oneDumpServer, { disk := oneDump }⟩ (scanAround ++ [("t", clearAll)]),
      ∀ p ∈ access.places, p.Within [⟨["w"]⟩] := by
  have created : Server.create oneDumpSettings oneDump = .ok (oneDumpServer, oneDump) := rfl
  have grounded : oneDump.Grounded oneDumpSettings.scan.roots := ⟨by decide, by decide, by decide⟩
  exact ⟨by decide +kernel, requestsConfined created grounded (by decide) {} (scanAround ++ [("t", clearAll)])⟩

end Site
end DebugSweep
