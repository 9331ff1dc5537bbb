import DebugSweep.Proofs.Flights
import DebugSweep.Proofs.Ways

/-! Scans during which files change. Main statement: if every change of a file gives it a size and time
that its path never had, then a scan during which the watched files stay as they are finds what a scan of
them from scratch finds, whatever was cached and whatever else changes. -/
namespace DebugSweep
open Engine (statOf? contentOf? findingsOf found Coded)

/-- A file that is new or has changed has a size and time that its path never had. -/
def Disk.Renews (d : Disk) (past : List Disk) (d' : Disk) : Prop :=
  ∀ p content mtime, d'.fileAt? p = some (content, mtime) →
    d.fileAt? p = some (content, mtime) ∨ ∀ old ∈ past, statOf? old p ≠ some ⟨content.size, mtime⟩

namespace Flight

/-- What is cached under a file's present mark is true of it, and each mark is one that its path had. -/
structure Marked (settings : Settings) (past : List Disk) (d : Disk) (cache : Cache) : Prop where
  current : ∀ p content mtime findings, p.Proper → d.fileAt? p = some (content, mtime) →
    cache.lookup? p.text (fingerprint content.size mtime) = some findings →
    findings = findingsOf settings p content
  dated : ∀ p entry, p.Proper → cache.get? p.text = some entry →
    ∃ old ∈ past, ∃ stat, statOf? old p = some stat ∧ entry.mark = fingerprint stat.size stat.mtime

section
variable {settings : Settings} {past : List Disk} {d d' : Disk} {cache cache' : Cache} {p : AbsPath}
  {content : ByteArray} {mtime : Int}

theorem contentAt (held : d.fileAt? p = some (content, mtime)) : contentOf? d p = some content := by
  simp [contentOf?, Disk.fileAtIff.mp held]

theorem Marked.recorded {known : FileStat → ByteArray → Prop} (marked : Marked settings past d cache)
    (proper : p.Proper) (recorded : Engine.Recorded settings p known cache cache')
    (facts : ∀ stat content, known stat content →
      (∃ old ∈ past, statOf? old p = some stat) ∧ contentOf? d p = some content) :
    Marked settings past d cache' := by
  cases recorded with
  | kept => exact marked
  | forgotten =>
    constructor
    · intro q content mtime findings proper' held hit
      by_cases here : q.text = p.text
      · simp [here, Cache.lookupDiscardSame] at hit
      · rw [Cache.lookupDiscardOther _ _ here] at hit
        exact marked.current q content mtime findings proper' held hit
    · intro q entry proper' known
      by_cases here : q.text = p.text
      · simp [here, Cache.getDiscardSame] at known
      · rw [Cache.getDiscardOther _ here] at known
        exact marked.dated q entry proper' known
  | @stored stat read facts' =>
    obtain ⟨⟨old, member, had⟩, present⟩ := facts stat read facts'
    constructor
    · intro q content mtime findings proper' held hit
      by_cases here : q.text = p.text
      · obtain rfl := proper'.textInjective proper here
        obtain ⟨entry, stored, -, rfl⟩ := Cache.lookupGet hit
        rw [Cache.getStoreSame] at stored
        cases stored
        rw [contentAt held] at present
        cases present
        rfl
      · rw [Cache.lookupStoreOther _ _ _ _ _ here] at hit
        exact marked.current q content mtime findings proper' held hit
    · intro q entry proper' stored
      by_cases here : q.text = p.text
      · obtain rfl := proper'.textInjective proper here
        rw [Cache.getStoreSame] at stored
        cases stored
        exact ⟨old, member, stat, had, rfl⟩
      · rw [Cache.getStoreOther _ _ _ _ here] at stored
        exact marked.dated q entry proper' stored

-- A mark that is cached was had before, so a renewed file is not taken for a cached one.
theorem Marked.outside (marked : Marked settings past d cache) (renews : d.Renews past d') :
    Marked settings (d' :: past) d' cache := by
  constructor
  · intro p content mtime findings proper held hit
    rcases renews p content mtime held with same | fresh
    · exact marked.current p content mtime findings proper same hit
    · obtain ⟨entry, known, mark, -⟩ := Cache.lookupGet hit
      obtain ⟨old, member, stat, had, mark'⟩ := marked.dated p entry proper known
      obtain ⟨size, time⟩ := fingerprintInjective (mark.symm.trans mark')
      refine absurd had ?_
      rw [show stat = ⟨content.size, mtime⟩ from by rw [size, time]]
      exact fresh old member
  · intro p entry proper known
    obtain ⟨old, member, later⟩ := marked.dated p entry proper known
    exact ⟨old, List.mem_cons_of_mem _ member, later⟩

def expected (settings : Settings) (d : Disk) (p : AbsPath) : List Finding :=
  found (({ settings } : Engine).scanFile { disk := d } p).1

theorem expectedFile (held : d.fileAt? p = some (content, mtime)) : expected settings d p =
    if settings.limits.maxFileBytes < content.size then [] else findingsOf settings p content := by
  have file := Disk.fileAtIff.mp held
  have sized := @Source.statCalm { disk := d } p content mtime rfl file
  unfold expected
  split
  · rename_i large
    rw [Engine.scanFileLarge sized large]
    rfl
  · rename_i small
    rw [Engine.scanFileRead sized small rfl (@Source.readCalm { disk := d } p content mtime rfl file)]
    rfl

def Right (settings : Settings) (d : Disk) (p : AbsPath) : Progress → Prop
  | .sizing => True
  | .reading stat => ∃ content mtime, d.fileAt? p = some (content, mtime) ∧ stat = ⟨content.size, mtime⟩ ∧
      ¬ settings.limits.maxFileBytes < content.size
  | .done outcome => found outcome = expected settings d p ∧ Coded outcome

theorem Right.step {e : Engine} {progress : Progress} (right : Right settings d p progress)
    (fixed : e.settings = settings) (marked : Marked settings past d e.cache) (proper : p.Proper)
    (held : d.fileAt? p = some (content, mtime)) :
    Right settings d p (progress.step e { disk := d } p).1 := by
  subst fixed
  have file := Disk.fileAtIff.mp held
  have sized := @Source.statCalm { disk := d } p content mtime rfl file
  cases progress with
  | done outcome => exact right
  | reading stat =>
    obtain ⟨content', mtime', held', rfl, small⟩ := right
    cases held.symm.trans held'
    have read := @Source.readCalm { disk := d } p content mtime rfl file
    simp only [Progress.step, read, Engine.absorb]
    refine ⟨?_, fun fault failed => by contradiction⟩
    rw [expectedFile held, if_neg small]
    rfl
  | sizing =>
    simp only [Progress.step, Engine.glance, sized]
    by_cases large : e.settings.limits.maxFileBytes < content.size
    · rw [if_pos large]
      refine ⟨?_, ?_⟩
      · rw [expectedFile held, if_pos large]
        rfl
      · intro fault failed
        cases failed
        rfl
    · rw [if_neg large]
      cases hit : e.cache.lookup? p.text (fingerprint content.size mtime) with
      | none => exact ⟨content, mtime, held, rfl, large⟩
      | some findings =>
        refine ⟨?_, fun fault failed => by contradiction⟩
        rw [expectedFile held, if_neg large, ← marked.current p content mtime findings proper held hit]
        rfl

end

theorem addGathers {now : String} {outcomes : List (AbsPath × Outcome)} (tally : Engine.Tally)
    (coded : ∀ entry ∈ outcomes, Coded entry.2) :
    ∃ tally', tally.add now outcomes = .ok tally' ∧
      tally'.findings.reverse = tally.findings.reverse ++ outcomes.flatMap (fun entry => found entry.2) := by
  induction outcomes generalizing tally with
  | nil => exact ⟨tally, rfl, by simp⟩
  | cons entry rest ih =>
    obtain ⟨p, outcome⟩ := entry
    have fewer : ∀ entry ∈ rest, Coded entry.2 := fun entry member => coded entry (List.mem_cons_of_mem _ member)
    cases outcome with
    | ok findings =>
      obtain ⟨tally', added, gathered⟩ := ih { tally with findings := findings.reverse ++ tally.findings } fewer
      exact ⟨tally', added, by simp [gathered, found]⟩
    | error fault =>
      obtain ⟨code, known⟩ := Option.isSome_iff_exists.mp (coded _ List.mem_cons_self fault rfl)
      obtain ⟨tally', added, gathered⟩ := ih
        { tally with errors := ⟨p.text, fault.message, code, now⟩ :: tally.errors } fewer
      refine ⟨tally', ?_, by simpa [found] using gathered⟩
      simp [Engine.Tally.add, Engine.errorOf, known, added]

theorem finishedOutcomes {files : List (AbsPath × Progress)} {outcomes : List (AbsPath × Outcome)}
    (complete : outcomes? files = some outcomes) : files = finished outcomes := by
  induction files generalizing outcomes with
  | nil =>
    cases complete
    rfl
  | cons file rest ih =>
    obtain ⟨p, progress⟩ := file
    cases progress with
    | sizing => contradiction
    | reading stat => contradiction
    | done outcome =>
      obtain ⟨others, known, rfl⟩ := Option.map_eq_some_iff.mp complete
      rw [ih known]
      rfl

def Complete (settings : Settings) (d : Disk) (r : ScanResult) : Prop :=
  ∃ files, Walk.Whole (Engine.selector { settings }) d files ∧
    r.findings = Finding.sort (files.flatMap (expected settings d))

structure Fits (settings : Settings) (d : Disk) (done ahead : List AbsPath) (plan : Plan) : Prop where
  whole : Walk.Whole (Engine.selector { settings }) d (done ++ (ahead ++ plan.rest))
  tallied : plan.tally.findings.reverse = done.flatMap (expected settings d)

inductive Onward (settings : Settings) (d : Disk) : Stage → Prop where
  | listing {w : Walk} (kept : ∀ p, Walk.tally (Engine.selector { settings }) { disk := d } p w =
        Walk.tally (Engine.selector { settings }) { disk := d } p (Walk.start (Engine.selector { settings })))
      (inner : ∀ dir ∈ w.stack, Walk.Inner (Engine.selector { settings }) dir) : Onward settings d (.listing w)
  | gathering {files : List (AbsPath × Progress)} {plan : Plan} (done : List AbsPath)
      (fits : Fits settings d done (files.map Prod.fst) plan)
      (right : ∀ file ∈ files, Right settings d file.1 file.2) : Onward settings d (.gathering files plan)
  | pausing {plan : Plan} (done : List AbsPath) (fits : Fits settings d done [] plan) :
      Onward settings d (.pausing plan)

def Turned (settings : Settings) (d : Disk) : Turn → Prop
  | .waits stage => Onward settings d stage
  | .ends result => ∃ r, result = .ok r ∧ Complete settings d r

section
variable {settings : Settings} {past : List Disk} {d d' : Disk} {e : Engine} {plan : Plan} {done : List AbsPath}

theorem Fits.proceed (fits : Fits settings d done [] plan) : Turned settings d (plan.proceed e) := by
  have whole := fits.whole
  unfold Plan.proceed
  cases filled : plan.rest with
  | nil =>
    rw [filled, List.append_nil, List.append_nil] at whole
    refine ⟨_, rfl, done, whole, ?_⟩
    simp only [Engine.Tally.result, ScanResult.ofParts, fits.tallied]
  | cons p more =>
    dsimp only
    rw [← filled]
    refine .gathering done ⟨?_, fits.tallied⟩ ?_
    · simpa [Function.comp_def] using whole
    · intro file member
      obtain ⟨p, -, rfl⟩ := List.mem_map.mp member
      trivial

theorem surveyed {w : Walk} (now : String)
    (kept : ∀ p, Walk.tally (Engine.selector { settings }) { disk := d } p w =
      Walk.tally (Engine.selector { settings }) { disk := d } p (Walk.start (Engine.selector { settings })))
    (inner : ∀ dir ∈ w.stack, Walk.Inner (Engine.selector { settings }) dir) :
    Turned settings d (survey e now w) := by
  unfold survey
  cases next : w.stack with
  | cons dir stack => exact .listing kept inner
  | nil => exact @Fits.proceed settings d e _ [] ⟨Walk.foundWhole kept next, rfl⟩

theorem started (now : String) : Turned settings d (Ask.start { e with settings } now .workspace) :=
  surveyed now (fun _ => rfl) (fun _ member => Walk.rootInner member)

theorem Fits.takeIn {outcomes : List (AbsPath × Outcome)} (now : String)
    (fits : Fits settings d done (outcomes.map Prod.fst) plan)
    (right : ∀ entry ∈ outcomes, Right settings d entry.1 (.done entry.2)) :
    Turned settings d (plan.takeIn e now outcomes) := by
  obtain ⟨tally, added, gathered⟩ := @addGathers now outcomes plan.tally (fun entry member => (right entry member).2)
  have findings : outcomes.flatMap (fun entry => found entry.2) =
      (outcomes.map Prod.fst).flatMap (expected settings d) := by
    rw [List.flatMap_map]
    exact List.flatMap_congr fun entry member => (right entry member).1
  have next : ∀ recent, Fits settings d (done ++ outcomes.map Prod.fst) [] { plan with tally, recent } := by
    intro recent
    refine ⟨?_, ?_⟩
    · simpa using fits.whole
    · rw [gathered, fits.tallied, findings, List.flatMap_append]
  unfold Plan.takeIn
  rw [added]
  dsimp only
  split
  · exact .pausing _ (next 0)
  · exact (next _).proceed

theorem Onward.file {files : List (AbsPath × Progress)} {index : Nat} {p : AbsPath} {progress : Progress}
    (fits : Fits settings d done (files.map Prod.fst) plan)
    (right : ∀ file ∈ files, Right settings d file.1 file.2) (housed : d.Housed) (fixed : e.settings = settings)
    (marked : Marked settings past d e.cache) (here : files[index]? = some (p, progress)) :
    Onward settings d (.gathering (files.set index (p, (progress.step e { disk := d } p).1)) plan) := by
  have member : (p, progress) ∈ files := List.mem_of_getElem? here
  have places : (files.set index (p, (progress.step e { disk := d } p).1)).map Prod.fst = files.map Prod.fst := by
    refine List.ext_getElem? fun k => ?_
    rw [List.getElem?_map, List.getElem?_map, List.getElem?_set]
    split
    · rename_i same
      subst same
      simp only [here, Option.map_some]
      split
      · rfl
      · rename_i outside
        rw [List.getElem?_eq_none (Nat.not_lt.mp outside)] at here
        contradiction
    · rfl
  refine .gathering done (places ▸ fits) fun file inside => ?_
  rcases List.mem_or_eq_of_mem_set inside with old | rfl
  · exact right file old
  · have known : p ∈ done ++ (files.map Prod.fst ++ plan.rest) := by simp [List.mem_map_of_mem member]
    obtain ⟨watches, content, mtime, held⟩ := fits.whole.file housed known
    exact (right _ member).step fixed marked watches.proper held

theorem Onward.resume {stage : Stage} (onward : Onward settings d stage) (housed : d.Housed)
    (fixed : e.settings = settings) (marked : Marked settings past d e.cache) (now : String) (move : Move) :
    Turned settings d (stage.resume e { disk := d } now move).1 := by
  unfold Stage.resume
  cases move with
  | file index =>
    cases onward with
    | listing kept inner => exact .listing kept inner
    | pausing done fits => exact .pausing done fits
    | @gathering files plan done fits right =>
      dsimp only
      cases here : files[index]? with
      | none => exact .gathering done fits right
      | some file => exact Onward.file fits right housed fixed marked here
  | next =>
    cases onward with
    | pausing done fits => exact fits.proceed
    | @gathering files plan done fits right =>
      dsimp only
      cases complete : outcomes? files with
      | none => exact .gathering done fits right
      | some outcomes =>
        have same := finishedOutcomes complete
        subst same
        refine Fits.takeIn now (by simpa [finished, Function.comp_def] using fits) fun entry member => ?_
        exact right (entry.1, .done entry.2) (List.mem_map.mpr ⟨entry, member, rfl⟩)
    | @listing w kept inner =>
      obtain rfl := fixed
      have system : Faults.SystemOnly {} := by simp [Faults.SystemOnly]
      obtain ⟨w', stepped, kept'⟩ : ∃ w', w.step e.selector { disk := d } = .ok w' ∧
          ∀ p, Walk.tally e.selector { disk := d } p w' = Walk.tally e.selector { disk := d } p w := by
        cases next : w.stack with
        | nil => exact ⟨w, by simp [Walk.step, next], fun _ => rfl⟩
        | cons dir stack =>
          obtain ⟨w', stepped, same, -⟩ := @Walk.stepKeeps { disk := d } _ _ _ e.selector housed.toTree system next
          exact ⟨w', stepped, same⟩
      dsimp only
      rw [stepped]
      exact surveyed now (fun p => (kept' p).trans (kept p)) (Walk.stepInner stepped inner)

theorem expectedAgrees {p : AbsPath} (same : d.fileAt? p = d'.fileAt? p) (there : (d.fileAt? p).isSome = true) :
    expected settings d p = expected settings d' p := by
  obtain ⟨⟨content, mtime⟩, held⟩ := Option.isSome_iff_exists.mp there
  rw [expectedFile held, expectedFile (same ▸ held)]

theorem partAgrees {files part : List AbsPath} (housed : d.Housed)
    (agrees : d.Agrees (Engine.selector { settings }) d')
    (whole : Walk.Whole (Engine.selector { settings }) d files) (inside : ∀ p ∈ part, p ∈ files) :
    part.flatMap (expected settings d) = part.flatMap (expected settings d') := by
  refine List.flatMap_congr fun p member => ?_
  obtain ⟨watches, content, mtime, held⟩ := whole.file housed (inside p member)
  exact expectedAgrees (agrees p watches) (by simp [held])

theorem Complete.agrees {r : ScanResult} (complete : Complete settings d r) (housed : d.Housed) (housed' : d'.Housed)
    (agrees : d.Agrees (Engine.selector { settings }) d') : Complete settings d' r := by
  obtain ⟨files, whole, findings⟩ := complete
  refine ⟨files, whole.agrees housed housed' agrees, ?_⟩
  rw [findings, partAgrees housed agrees whole fun _ member => member]

theorem Fits.agrees {ahead : List AbsPath} (fits : Fits settings d done ahead plan) (housed : d.Housed)
    (housed' : d'.Housed) (agrees : d.Agrees (Engine.selector { settings }) d') :
    Fits settings d' done ahead plan := by
  refine ⟨fits.whole.agrees housed housed' agrees, fits.tallied.trans ?_⟩
  exact partAgrees housed agrees fits.whole fun p member => List.mem_append_left _ member

theorem Right.agrees {p : AbsPath} {progress : Progress} (right : Right settings d p progress)
    (same : d.fileAt? p = d'.fileAt? p) (there : (d.fileAt? p).isSome = true) : Right settings d' p progress := by
  cases progress with
  | sizing => trivial
  | reading stat =>
    obtain ⟨content, mtime, held, sized, small⟩ := right
    exact ⟨content, mtime, same ▸ held, sized, small⟩
  | done outcome => exact ⟨right.1.trans (expectedAgrees same there), right.2⟩

theorem Onward.agrees {stage : Stage} (onward : Onward settings d stage) (housed : d.Housed) (housed' : d'.Housed)
    (agrees : d.Agrees (Engine.selector { settings }) d') : Onward settings d' stage := by
  cases onward with
  | pausing done fits => exact .pausing done (fits.agrees housed housed' agrees)
  | listing kept inner =>
    refine .listing (fun p => ?_) inner
    rw [← Walk.tallyAgree housed housed' agrees inner, kept p]
    exact Walk.tallyAgree housed housed' agrees (fun _ member => Walk.rootInner member) p
  | gathering done fits right =>
    refine .gathering done (fits.agrees housed housed' agrees) fun file member => ?_
    obtain ⟨watches, content, mtime, held⟩ := fits.whole.file housed (p := file.1)
      (by simp [List.mem_map_of_mem member])
    exact (right file member).agrees (agrees _ watches) (by simp [held])

theorem Complete.unique {r r' : ScanResult} (complete : Complete settings d r) (complete' : Complete settings d r')
    (housed : d.Housed) : r.findings = r'.findings := by
  obtain ⟨files, whole, findings⟩ := complete
  obtain ⟨files', whole', findings'⟩ := complete'
  obtain rfl := whole.unique whole' housed
  rw [findings, findings']

theorem scanWorkspaceComplete (now : String) (sized : 0 < settings.limits.batchSize) (housed : d.Housed) :
    ∃ r, (({ settings } : Engine).scanWorkspace { disk := d } now).1 = .ok r ∧ Complete settings d r := by
  obtain ⟨w, walked, whole⟩ := Walk.collectWhole (Engine.selector { settings }) housed
  have proper : ∀ p ∈ w.found, p.Proper := fun p member => (whole.file housed member).1.proper
  have system : Faults.SystemOnly {} := by simp [Faults.SystemOnly]
  have scanned := @Engine.scanWorkspaceCollects { settings } { disk := d } w now rfl sized proper walked
    (fun p member => Engine.scanFileCoded (Engine.uncached settings d) system (proper p member))
  exact ⟨_, scanned, w.found, whole, rfl⟩

end

inductive Sane (past : List Disk) : Stage → Prop where
  | listing {w : Walk} (proper : ∀ p ∈ w.found, p.Proper) : Sane past (.listing w)
  | gathering {files : List (AbsPath × Progress)} {plan : Plan} (proper : ∀ p ∈ plan.rest, p.Proper)
      (sized : ∀ file ∈ files, file.1.Proper ∧
        ∀ stat, file.2 = .reading stat → ∃ old ∈ past, statOf? old file.1 = some stat) :
      Sane past (.gathering files plan)
  | pausing {plan : Plan} (proper : ∀ p ∈ plan.rest, p.Proper) : Sane past (.pausing plan)

def SaneTurn (past : List Disk) : Turn → Prop
  | .waits stage => Sane past stage
  | .ends _ => True

section
variable {settings : Settings} {past : List Disk} {d : Disk} {e : Engine} {stage : Stage}

theorem Sane.later (sane : Sane past stage) : Sane (d :: past) stage := by
  cases sane with
  | listing proper => exact .listing proper
  | pausing proper => exact .pausing proper
  | gathering proper sized =>
    refine .gathering proper fun file member => ⟨(sized file member).1, fun stat reading => ?_⟩
    obtain ⟨old, known, had⟩ := (sized file member).2 stat reading
    exact ⟨old, List.mem_cons_of_mem _ known, had⟩

theorem saneProceed {plan : Plan} (proper : ∀ p ∈ plan.rest, p.Proper) : SaneTurn past (plan.proceed e) := by
  unfold Plan.proceed
  split
  · trivial
  · refine .gathering (fun p member => proper p (List.mem_of_mem_drop member)) fun file member => ?_
    obtain ⟨p, inside, rfl⟩ := List.mem_map.mp member
    exact ⟨proper p (List.mem_of_mem_take inside), fun stat reading => by contradiction⟩

theorem saneSurvey {w : Walk} (now : String) (proper : ∀ p ∈ w.found, p.Proper) :
    SaneTurn past (survey e now w) := by
  unfold survey
  split
  · exact .listing proper
  · exact saneProceed fun p member => proper p (List.mem_mergeSort.mp member)

theorem saneTakeIn {plan : Plan} (now : String) (outcomes : List (AbsPath × Outcome))
    (proper : ∀ p ∈ plan.rest, p.Proper) : SaneTurn past (plan.takeIn e now outcomes) := by
  unfold Plan.takeIn
  split
  · trivial
  · dsimp only
    split
    · exact .pausing proper
    · exact saneProceed proper

theorem Marked.step {p : AbsPath} {progress : Progress} (marked : Marked settings past d e.cache)
    (fixed : e.settings = settings) (present : d ∈ past) (proper : p.Proper)
    (sized : ∀ stat, progress = .reading stat → ∃ old ∈ past, statOf? old p = some stat) :
    Marked settings past d (progress.step e { disk := d } p).2.cache ∧
      ∀ stat, (progress.step e { disk := d } p).1 = .reading stat → ∃ old ∈ past, statOf? old p = some stat := by
  subst fixed
  cases progress with
  | done outcome => exact ⟨marked, sized⟩
  | reading stat =>
    obtain ⟨cache, same, recorded⟩ := @Engine.absorbRecords e p _ stat _ (fun _ => Engine.textFound)
    refine ⟨?_, fun stat' reading => by contradiction⟩
    simp only [Progress.step]
    rw [same]
    refine marked.recorded proper recorded ?_
    rintro stat' content ⟨rfl, held⟩
    exact ⟨sized stat' rfl, held⟩
  | sizing =>
    simp only [Progress.step]
    cases glanced : e.glance { disk := d } p with
    | known outcome e' =>
      obtain ⟨cache, rfl, recorded⟩ := Engine.glanceRecords (fun _ _ => False) glanced
      exact ⟨marked.recorded proper recorded fun _ _ => False.elim, fun stat reading => by contradiction⟩
    | needsText stat =>
      refine ⟨marked, fun stat' reading => ?_⟩
      cases reading
      exact ⟨d, present, Engine.statFound (Engine.glanceSizes glanced)⟩

theorem Sane.resume (sane : Sane past stage) (marked : Marked settings past d e.cache)
    (fixed : e.settings = settings) (present : d ∈ past) (tree : d.Tree) (now : String) (move : Move) :
    SaneTurn past (stage.resume e { disk := d } now move).1 ∧
      Marked settings past d (stage.resume e { disk := d } now move).2.cache := by
  unfold Stage.resume
  cases move with
  | file index =>
    cases sane with
    | listing proper => exact ⟨.listing proper, marked⟩
    | pausing proper => exact ⟨.pausing proper, marked⟩
    | @gathering files plan proper sized =>
      dsimp only
      cases here : files[index]? with
      | none => exact ⟨.gathering proper sized, marked⟩
      | some file =>
        obtain ⟨named, reading⟩ := sized file (List.mem_of_getElem? here)
        obtain ⟨marked', sized'⟩ := marked.step fixed present named reading
        refine ⟨.gathering proper fun other member => ?_, marked'⟩
        rcases List.mem_or_eq_of_mem_set member with old | rfl
        · exact sized other old
        · exact ⟨named, sized'⟩
  | next =>
    cases sane with
    | pausing proper => exact ⟨saneProceed proper, marked⟩
    | @gathering files plan proper sized =>
      dsimp only
      cases outcomes? files with
      | none => exact ⟨.gathering proper sized, marked⟩
      | some outcomes => exact ⟨saneTakeIn now outcomes proper, marked⟩
    | @listing w proper =>
      dsimp only
      cases stepped : w.step e.selector { disk := d } with
      | error fault => exact ⟨trivial, marked⟩
      | ok w' => exact ⟨saneSurvey now (Walk.stepProper stepped tree proper), marked⟩

end
end Flight
end DebugSweep
