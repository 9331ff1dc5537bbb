import DebugSweep.Proofs.Confinement
import DebugSweep.Proofs.Reloading

/-! Where findings come from. Main statement: what a scan reports, be it new or cached, was found in a
file that it selected, and all that is remembered of files was found in them. -/
namespace DebugSweep

namespace Walk
variable {sel : Selector} {source : Source} {w w' : Walk}

theorem stepTakes (known : ∀ p ∈ w.found, sel.takes p = true) (stepped : w.step sel source = .ok w') :
    ∀ p ∈ w'.found, sel.takes p = true := by
  unfold Walk.step at stepped
  split at stepped
  · cases stepped
    exact known
  · split at stepped
    · cases stepped
      rw [enterChosen]
      refine List.forall_mem_append.mpr ⟨?_, known⟩
      intro p member
      obtain ⟨name, -, -, taken⟩ := chosenMember.mp member
      exact taken
    · cases stepped
      exact known
    · contradiction

theorem runTakes {fuel : Nat} (known : ∀ p ∈ w.found, sel.takes p = true)
    (ran : Walk.run sel source fuel w = .ok w') : ∀ p ∈ w'.found, sel.takes p = true := by
  induction fuel generalizing w with
  | zero =>
    cases ran
    exact known
  | succ fuel ih =>
    unfold Walk.run at ran
    split at ran
    · cases ran
      exact known
    · split at ran
      · rename_i next stepped
        exact ih (stepTakes known stepped) ran
      · contradiction

theorem collectTakes (collected : collect sel source = .ok w) : ∀ p ∈ w.found, sel.takes p = true := by
  obtain ⟨last, ran, same⟩ := bindOkIff.mp collected
  cases same
  intro p member
  exact runTakes (by simp [Walk.start]) ran p (List.mem_mergeSort.mp member)

end Walk

namespace Engine

def Yields (belongs : String → Finding → Prop) (d : Disk) : Prop :=
  ∀ p content, contentOf? d p = some content → ∀ relative,
    ∀ f ∈ Scan.text ⟨p.text, relative⟩ (Source.textOf content), belongs p.text f

structure Traced (belongs : String → Finding → Prop) (e : Engine) (source : Source) : Prop where
  fresh : Yields belongs source.disk
  cached : ∀ entry ∈ e.cache.entries, ∀ f ∈ entry.findings, belongs entry.path f
  last : ∀ result ∈ e.last, ∀ f ∈ result.findings, ∃ path, belongs path f

section
variable {belongs : String → Finding → Prop} {e : Engine} {source : Source}

theorem Traced.forget (traced : e.Traced belongs source) (path : String) :
    Traced belongs { e with cache := e.cache.discard path } source :=
  ⟨traced.fresh, fun entry member => traced.cached entry (List.mem_filter.mp member).1, traced.last⟩

theorem Traced.failed (traced : e.Traced belongs source) (p : AbsPath) (fault : Fault) :
    (e.failed p fault).2.Traced belongs source := by
  unfold Engine.failed
  split
  · exact traced.forget p.text
  · exact traced

theorem Traced.absorb (traced : e.Traced belongs source) (p : AbsPath) (stat : FileStat) :
    (e.absorb p stat (source.readText p).1).2.Traced belongs (source.readText p).2 ∧
      ∀ f ∈ found (e.absorb p stat (source.readText p).1).1, belongs p.text f := by
  have noted : e.Traced belongs (source.readText p).2 := ⟨traced.fresh, traced.cached, traced.last⟩
  cases read : (source.readText p).1 with
  | error fault =>
    refine ⟨noted.failed p fault, ?_⟩
    change ∀ f ∈ found (e.failed p fault).1, _
    rw [failedReported]
    simp [found]
  | ok text =>
    obtain ⟨content, held, rfl⟩ := textFound read
    have new := traced.fresh p content held (e.relativePath ⟨[]⟩ p.text)
    refine ⟨⟨traced.fresh, ?_, traced.last⟩, new⟩
    intro entry member
    rcases List.mem_cons.mp member with rfl | old
    · exact new
    · exact traced.cached entry (List.mem_filter.mp old).1

theorem Traced.scanFile (traced : e.Traced belongs source) (p : AbsPath) :
    (e.scanFile source p).2.1.Traced belongs (e.scanFile source p).2.2 ∧
      ∀ f ∈ found (e.scanFile source p).1, belongs p.text f := by
  cases sized : source.stat p with
  | error fault =>
    rw [scanFileUnsized sized, failedReported]
    exact ⟨traced.failed p fault, by simp [found]⟩
  | ok stat =>
    by_cases large : e.settings.limits.maxFileBytes < stat.size
    · rw [scanFileLarge sized large]
      exact ⟨traced.forget p.text, by simp [found]⟩
    · cases hit : e.cache.lookup? p.text (fingerprint stat.size stat.mtime) with
      | some findings =>
        rw [scanFileHit sized large hit]
        obtain ⟨entry, member, path, -, rfl⟩ := lookupEntry hit
        exact ⟨traced, path ▸ traced.cached entry member⟩
      | none =>
        rw [scanFileMiss sized large hit]
        exact traced.absorb p stat

variable {holds : Finding → Prop} {paths : List AbsPath}

theorem Traced.scanBatch (traced : e.Traced belongs source)
    (enough : ∀ p ∈ paths, ∀ f, belongs p.text f → holds f) (done : List Outcome)
    (before : ∀ outcome ∈ done, ∀ f ∈ found outcome, holds f) :
    (e.scanBatch source done paths).2.1.Traced belongs (e.scanBatch source done paths).2.2 ∧
      ∀ outcome ∈ (e.scanBatch source done paths).1, ∀ f ∈ found outcome, holds f := by
  induction paths generalizing e source done with
  | nil => exact ⟨traced, by simpa [Engine.scanBatch] using before⟩
  | cons p rest ih =>
    obtain ⟨here, later⟩ := List.forall_mem_cons.mp enough
    obtain ⟨next, new⟩ := traced.scanFile p
    exact ih next later _ (List.forall_mem_cons.mpr ⟨fun f member => here f (new f member), before⟩)

theorem Traced.scanBatches (traced : e.Traced belongs source)
    (enough : ∀ p ∈ paths, ∀ f, belongs p.text f → holds f) (now : String) (fuel : Nat) (tally : Tally)
    (before : ∀ f ∈ tally.findings, holds f) :
    (e.scanBatches source now tally fuel paths).2.1.Traced belongs
        (e.scanBatches source now tally fuel paths).2.2 ∧
      ∀ tally', (e.scanBatches source now tally fuel paths).1 = .ok tally' → ∀ f ∈ tally'.findings, holds f := by
  induction fuel generalizing e source tally paths with
  | zero =>
    refine ⟨traced, ?_⟩
    rintro tally' ⟨⟩
    exact before
  | succ fuel ih =>
    cases filled : paths with
    | nil =>
      refine ⟨traced, ?_⟩
      rintro tally' ⟨⟩
      exact before
    | cons p rest =>
      rw [Engine.scanBatches, ← filled]
      dsimp only
      obtain ⟨next, new⟩ := traced.scanBatch
        (fun q (member : q ∈ paths.take e.settings.limits.batchSize) =>
          enough q (List.mem_of_mem_take member)) [] (by simp)
      split
      · exact ⟨next, by simp⟩
      · rename_i tally' added
        exact ih next (fun q member => enough q (List.mem_of_mem_drop member)) _
          (addHolds (fun pair member => new pair.2 (List.of_mem_zip member).2) before added)

theorem Traced.scanPaths (traced : e.Traced belongs source) (now : String) (paths : List AbsPath)
    (prior : List ScanError) :
    (e.scanPaths source now paths prior).2.1.Traced belongs (e.scanPaths source now paths prior).2.2 ∧
      ∀ r, (e.scanPaths source now paths prior).1 = .ok r →
        ∀ f ∈ r.findings, ∃ p ∈ paths, belongs p.text f := by
  have enough : ∀ p ∈ paths, ∀ f, belongs p.text f → ∃ p ∈ paths, belongs p.text f :=
    fun p member f belonging => ⟨p, member, belonging⟩
  obtain ⟨next, new⟩ := traced.scanBatches enough now paths.length { errors := prior.reverse } (by simp)
  refine ⟨next, ?_⟩
  intro r scanned f member
  unfold Engine.scanPaths at scanned
  dsimp only at scanned
  cases gathered : (e.scanBatches source now { errors := prior.reverse } paths.length paths).1 with
  | error fault =>
    rw [gathered] at scanned
    contradiction
  | ok tally =>
    rw [gathered] at scanned
    cases scanned
    exact new tally gathered f (List.mem_reverse.mp (List.mem_mergeSort.mp member))

theorem Traced.settle {result : Except Fault ScanResult} (traced : e.Traced belongs source)
    (new : ∀ r, result = .ok r → ∀ f ∈ r.findings, ∃ path, belongs path f) :
    (e.settle result).Traced belongs source := by
  cases result with
  | error fault => exact ⟨traced.fresh, traced.cached, traced.last⟩
  | ok r =>
    refine ⟨traced.fresh, traced.cached, ?_⟩
    rintro r' ⟨⟩
    exact new r rfl

theorem Traced.scanFiles (traced : e.Traced belongs source) (now : String) (asked : List String) :
    (e.scanFiles source now asked).2.1.Traced belongs (e.scanFiles source now asked).2.2 ∧
      ∀ r, (e.scanFiles source now asked).1 = .ok r → ∀ f ∈ r.findings,
        ∃ p : AbsPath, e.eligible source.disk.here p.text = true ∧ belongs p.text f := by
  have running : Traced belongs { e with scanning := true } source := ⟨traced.fresh, traced.cached, traced.last⟩
  unfold Engine.scanFiles scanFilesBy
  split
  · refine ⟨traced, ?_⟩
    rintro r ⟨⟩
    simp [ScanResult.empty]
  · dsimp only
    split
    · exact ⟨running.settle (by simp), by simp⟩
    · rename_i places resolved
      obtain ⟨next, new⟩ := running.scanPaths now
        ((distinct places).filter (fun p => e.eligible source.disk.here p.text)) []
      constructor
      · apply next.settle
        intro r scanned f member
        obtain ⟨p, -, belonging⟩ := new r scanned f member
        exact ⟨p.text, belonging⟩
      · intro r scanned f member
        obtain ⟨p, chosen, belonging⟩ := new r scanned f member
        exact ⟨p, (List.mem_filter.mp chosen).2, belonging⟩

theorem Traced.scanWorkspace (traced : e.Traced belongs source) (now : String) :
    (e.scanWorkspace source now).2.1.Traced belongs (e.scanWorkspace source now).2.2 ∧
      ∀ r, (e.scanWorkspace source now).1 = .ok r → ∀ f ∈ r.findings,
        ∃ p : AbsPath, e.selector.takes p = true ∧ belongs p.text f := by
  have running : Traced belongs { e with scanning := true } source := ⟨traced.fresh, traced.cached, traced.last⟩
  unfold Engine.scanWorkspace
  split
  · refine ⟨traced, ?_⟩
    rintro r ⟨⟩
    simp [ScanResult.empty]
  · dsimp only
    split
    · exact ⟨running.settle (by simp), by simp⟩
    · rename_i w collected
      obtain ⟨next, new⟩ := running.scanPaths now w.found (walkErrors now w)
      constructor
      · apply next.settle
        intro r scanned f member
        obtain ⟨p, -, belonging⟩ := new r scanned f member
        exact ⟨p.text, belonging⟩
      · intro r scanned f member
        obtain ⟨p, chosen, belonging⟩ := new r scanned f member
        exact ⟨p, Walk.collectTakes collected p chosen, belonging⟩

end
end Engine
end DebugSweep
