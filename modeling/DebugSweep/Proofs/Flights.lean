import DebugSweep.Engine.Flight
import DebugSweep.Proofs.Reloading

/-! Calls that overlap. Main statement: however calls and their waits interleave, and wherever they
fail, at most one scan is under way, the engine says so, and it keeps the result of the latest one that
succeeded. -/
namespace DebugSweep.Flight

section
variable {e : Engine} {source : Source}

theorem Progress.stepEngine (p : AbsPath) (progress : Progress) :
    ∃ cache, (progress.step e source p).2 = { e with cache } := by
  cases progress with
  | sizing =>
    unfold step
    cases glanced : e.glance source p with
    | known outcome e' =>
      obtain ⟨cache, same, -⟩ := Engine.glanceRecords (fun _ _ => True) glanced
      exact ⟨cache, same⟩
    | needsText stat => exact ⟨_, rfl⟩
  | reading stat =>
    obtain ⟨cache, same, -⟩ := @Engine.absorbRecords e p _ stat _ (fun _ => Engine.textFound)
    exact ⟨cache, same⟩
  | done outcome => exact ⟨_, rfl⟩

theorem Stage.resumeEngine (now : String) (stage : Stage) (move : Move) :
    ∃ cache, (stage.resume e source now move).2 = { e with cache } := by
  unfold resume
  cases move with
  | next =>
    cases stage with
    | pausing plan => exact ⟨_, rfl⟩
    | listing w => dsimp only; split <;> exact ⟨_, rfl⟩
    | gathering files plan => dsimp only; split <;> exact ⟨_, rfl⟩
  | file index =>
    cases stage with
    | gathering files plan =>
      dsimp only
      cases files[index]? with
      | none => exact ⟨_, rfl⟩
      | some file => exact file.2.stepEngine file.1
    | listing w => exact ⟨_, rfl⟩
    | pausing plan => exact ⟨_, rfl⟩

end

inductive Moved (f : Flight) : Flight → Prop where
  | stays : Moved f f
  | refused (busy : f.engine.scanning = true) :
      Moved f { f with calls := f.calls + 1, replies := ⟨f.calls, false, .ok .empty⟩ :: f.replies }
  | starts (idle : f.engine.scanning = false) (turn : Turn) :
      Moved f (land { f with calls := f.calls + 1, engine := { f.engine with scanning := true } } f.calls turn)
  | goesOn {call : Nat} {stage : Stage} (underWay : f.stage? call = some stage) (cache : Cache) (turn : Turn) :
      Moved f (land { f with engine := { f.engine with cache } } call turn)

theorem stepMoved (f : Flight) (event : Event) : Moved f (f.step event) := by
  cases event with
  | call ask now =>
    unfold step
    dsimp only
    split
    · rename_i busy
      exact .refused busy
    · rename_i idle
      exact .starts (by simpa using idle) _
  | resume call source now move =>
    rw [step]
    cases underWay : f.stage? call with
    | none => exact .stays
    | some stage =>
      obtain ⟨cache, same⟩ := @Stage.resumeEngine f.engine source now stage move
      dsimp only
      rw [same]
      exact .goesOn underWay cache _
  | fail call fault =>
    rw [step]
    cases underWay : f.stage? call with
    | none => exact .stays
    | some stage => exact .goesOn underWay f.engine.cache _

def latest (replies : List Reply) : Option ScanResult :=
  replies.findSome? (fun reply => if reply.admitted then reply.result.toOption else none)

/-- At most one scan is under way, and the engine that it began with tells of it and of those before. -/
structure Single (first : Engine) (f : Flight) : Prop where
  settings : f.engine.settings = first.settings
  few : f.running.length ≤ 1
  flag : f.engine.scanning = true ↔ f.running ≠ []
  last : f.engine.last = (latest f.replies).or first.last
  refused : ∀ reply ∈ f.replies, reply.admitted = false → reply.result = .ok .empty
  once : (f.running.map Prod.fst ++ f.replies.map Reply.call).Perm (List.range f.calls)

section
variable {first : Engine} {f : Flight}

theorem Single.alone {call : Nat} {stage : Stage} (single : Single first f) (underWay : f.stage? call = some stage) :
    f.running = [(call, stage)] := by
  obtain ⟨scan, found, rfl⟩ := Option.map_eq_some_iff.mp underWay
  have here : scan.1 = call := by simpa using List.find?_some found
  have member := List.mem_of_find?_eq_some found
  have few := single.few
  cases running : f.running with
  | nil => simp [running] at member
  | cons other rest =>
    obtain rfl : rest = [] := by simpa [running] using few
    obtain rfl : scan = other := by simpa [running] using member
    simp [← here]

theorem Single.idle (single : Single first f) (idle : f.engine.scanning = false) : f.running = [] := by
  by_contra some
  rw [single.flag.mpr some] at idle
  contradiction

theorem Single.landed {call : Nat} (turn : Turn) (none : f.running.filter (fun scan => scan.1 != call) = [])
    (settings : f.engine.settings = first.settings) (busy : f.engine.scanning = true)
    (last : f.engine.last = (latest f.replies).or first.last)
    (refused : ∀ reply ∈ f.replies, reply.admitted = false → reply.result = .ok .empty)
    (once : (call :: f.replies.map Reply.call).Perm (List.range f.calls)) : Single first (f.land call turn) := by
  cases turn with
  | waits stage =>
    unfold land
    rw [none]
    exact ⟨settings, by simp, by simp [busy], last, refused, once⟩
  | ends result =>
    unfold land
    rw [none]
    refine ⟨?_, by simp, ?_, ?_, ?_, by simpa using once⟩
    · cases result <;> exact settings
    · cases result <;> simp [Engine.settle]
    · cases result with
      | error fault => simpa [Engine.settle, latest, Except.toOption] using last
      | ok r => simp [Engine.settle, latest, Except.toOption]
    · intro reply member out
      rcases List.mem_cons.mp member with rfl | old
      · contradiction
      · exact refused reply old out

theorem Single.moved {f' : Flight} (single : Single first f) (moved : Moved f f') : Single first f' := by
  cases moved with
  | stays => exact single
  | refused busy =>
    refine ⟨single.settings, single.few, single.flag, ?_, ?_, ?_⟩
    · simpa [latest] using single.last
    · intro reply member out
      rcases List.mem_cons.mp member with rfl | old
      · rfl
      · exact single.refused reply old out
    · rw [List.range_succ]
      exact List.perm_middle.trans ((single.once.cons _).trans (List.perm_append_singleton _ _).symm)
  | starts idle turn =>
    have none := single.idle idle
    refine Single.landed turn (by simp [none]) single.settings rfl single.last single.refused ?_
    have known := single.once
    rw [none] at known
    rw [List.range_succ]
    exact (known.cons _).trans (List.perm_append_singleton _ _).symm
  | @goesOn call stage underWay cache turn =>
    have alone := single.alone underWay
    have busy : f.engine.scanning = true := single.flag.mpr (by simp [alone])
    have known := single.once
    rw [alone] at known
    exact Single.landed turn (by simp [alone]) single.settings busy single.last single.refused known

theorem Single.start (idle : first.scanning = false) : Single first { engine := first } :=
  ⟨rfl, Nat.zero_le _, by simp [idle], rfl, by simp, List.Perm.refl _⟩

theorem Single.run (single : Single first f) (events : List Event) : Single first (f.run events) := by
  induction events generalizing f with
  | nil => exact single
  | cons event rest ih => exact ih (single.moved (stepMoved f event))

end

def drive (source : Source) (now : String) (at' : Turn × Engine) (move : Move) : Turn × Engine :=
  match at'.1 with
  | .waits stage => stage.resume at'.2 source now move
  | .ends _ => at'

def Drives (source : Source) (now : String) (start stop : Turn × Engine) : Prop :=
  ∃ moves : List Move, moves.foldl (drive source now) start = stop

section
variable {source source' : Source} {now : String} {e : Engine} {plan : Plan}

theorem Drives.refl (start : Turn × Engine) : Drives source now start start := ⟨[], rfl⟩

theorem Drives.step {stop : Turn × Engine} {stage : Stage} (move : Move)
    (later : Drives source now (stage.resume e source now move) stop) :
    Drives source now (.waits stage, e) stop := by
  obtain ⟨moves, driven⟩ := later
  exact ⟨move :: moves, driven⟩

theorem Drives.trans {start middle stop : Turn × Engine} (first : Drives source now start middle)
    (second : Drives source now middle stop) : Drives source now start stop := by
  obtain ⟨moves, rfl⟩ := first
  obtain ⟨more, rfl⟩ := second
  exact ⟨moves ++ more, List.foldl_append⟩

theorem runAlone (f : Flight) (call : Nat) (start : Turn × Engine) (moves : List Move) :
    ({ f with engine := start.2 }.land call start.1).run (moves.map (.resume call source now)) =
      { f with engine := (moves.foldl (drive source now) start).2 }.land call
        (moves.foldl (drive source now) start).1 := by
  induction moves generalizing start with
  | nil => rfl
  | cons move rest ih =>
    rw [List.map_cons, List.foldl_cons, ← ih]
    change Flight.run (step _ _) _ = _
    congr 1
    obtain ⟨turn, e⟩ := start
    cases turn with
    | waits stage => simp [land, Flight.step, stage?, drive]
    | ends result =>
      have gone : List.find? (fun _ => false) f.running = none := by simp
      simp [land, Flight.step, stage?, drive, gone]

theorem Drives.file (done rest : List (AbsPath × Progress)) (p : AbsPath) :
    Drives source now (.waits (.gathering (done ++ (p, .sizing) :: rest) plan), e)
      (.waits (.gathering (done ++ (p, .done (e.scanFile source p).1) :: rest) plan),
        (e.scanFile source p).2.1) := by
  unfold Engine.scanFile
  cases glanced : e.glance source p with
  | known outcome e' =>
    refine .step (.file done.length) ?_
    simp only [Stage.resume, List.getElem?_append_right, Nat.le_refl, Nat.sub_self, List.getElem?_cons_zero,
      Progress.step, glanced, List.set_append_right, List.set_cons_zero]
    exact .refl _
  | needsText stat =>
    refine .step (.file done.length) ?_
    simp only [Stage.resume, List.getElem?_append_right, Nat.le_refl, Nat.sub_self, List.getElem?_cons_zero,
      Progress.step, glanced, List.set_append_right, List.set_cons_zero]
    refine .step (.file done.length) ?_
    simp only [Stage.resume, List.getElem?_append_right, Nat.le_refl, Nat.sub_self, List.getElem?_cons_zero,
      Progress.step, List.set_append_right, List.set_cons_zero]
    exact .refl _

theorem sameAnswers (p : AbsPath) (disk : source'.disk = source.disk) (faults : source'.faults = source.faults) :
    (e.scanFile source' p).1 = (e.scanFile source p).1 ∧
      (e.scanFile source' p).2.1 = (e.scanFile source p).2.1 := by
  have stats : source'.stat p = source.stat p := by
    unfold Source.stat
    rw [disk, faults]
  have texts : (source'.readText p).1 = (source.readText p).1 := by
    unfold Source.readText
    dsimp only
    rw [disk, faults]
  have glances : e.glance source' p = e.glance source p := by
    unfold Engine.glance
    rw [stats]
  unfold Engine.scanFile
  rw [glances]
  cases e.glance source p with
  | known outcome e' => exact ⟨rfl, rfl⟩
  | needsText stat =>
    dsimp only
    rw [texts]
    exact ⟨rfl, rfl⟩

theorem viewKept (source : Source) :
    Engine.Kept (fun _ source' => source'.disk = source.disk ∧ source'.faults = source.faults) := by
  constructor
  · intro e source' p same
    unfold Engine.scanFile
    split
    · exact same
    · exact same
  · intro e source' scanning last same
    exact same

def finished (outcomes : List (AbsPath × Outcome)) : List (AbsPath × Progress) :=
  outcomes.map (fun entry => (entry.1, .done entry.2))

theorem outcomesFinished (outcomes : List (AbsPath × Outcome)) :
    outcomes? (finished outcomes) = some outcomes := by
  induction outcomes with
  | nil => rfl
  | cons entry rest ih =>
    change (outcomes? (finished rest)).map _ = _
    rw [ih]
    rfl

theorem Drives.batch (done : List (AbsPath × Progress)) (before : List Outcome) (paths : List AbsPath)
    (disk : source'.disk = source.disk) (faults : source'.faults = source.faults) :
    ∃ outcomes, (e.scanBatch source' before paths).1 = before.reverse ++ outcomes ∧
      outcomes.length = paths.length ∧
      Drives source now (.waits (.gathering (done ++ paths.map (·, .sizing)) plan), e)
        (.waits (.gathering (done ++ finished (paths.zip outcomes)) plan),
          (e.scanBatch source' before paths).2.1) := by
  induction paths generalizing e source' done before with
  | nil => exact ⟨[], by simp [Engine.scanBatch], rfl, .refl _⟩
  | cons p rest ih =>
    obtain ⟨outcome, engine⟩ := @sameAnswers source source' e p disk faults
    have view := (viewKept source).file e source' p ⟨disk, faults⟩
    obtain ⟨outcomes, listed, sizes, driven⟩ := ih (e := (e.scanFile source' p).2.1)
      (done ++ [(p, .done (e.scanFile source' p).1)]) ((e.scanFile source' p).1 :: before) view.1 view.2
    refine ⟨(e.scanFile source' p).1 :: outcomes, ?_, by simp [sizes], ?_⟩
    · rw [Engine.scanBatch, listed]
      simp
    · have first := @Drives.file source now e plan done (rest.map (·, .sizing)) p
      rw [← outcome, ← engine] at first
      rw [List.append_assoc, List.append_assoc] at driven
      exact first.trans driven

theorem Drives.takeIn {outcomes : List (AbsPath × Outcome)} {tally : Engine.Tally}
    (added : plan.tally.add now outcomes = .ok tally) : ∃ recent,
      Drives source now (plan.takeIn e now outcomes, e) ({ plan with tally, recent }.proceed e, e) := by
  unfold Plan.takeIn
  rw [added]
  dsimp only
  split
  · exact ⟨0, .step .next (.refl _)⟩
  · exact ⟨_, .refl _⟩

theorem Plan.proceedNext {p : AbsPath} {more : List AbsPath} (e : Engine) (filled : plan.rest = p :: more) :
    plan.proceed e = .waits (.gathering ((plan.rest.take e.settings.limits.batchSize).map (·, .sizing))
      { plan with rest := plan.rest.drop e.settings.limits.batchSize }) := by
  unfold proceed
  rw [filled]

theorem Drives.batches {fuel : Nat} (sized : 0 < e.settings.limits.batchSize) (enough : plan.rest.length ≤ fuel)
    (disk : source'.disk = source.disk) (faults : source'.faults = source.faults) :
    Drives source now (plan.proceed e, e)
      (.ends ((e.scanBatches source' now plan.tally fuel plan.rest).1.map (·.result plan.total)),
        (e.scanBatches source' now plan.tally fuel plan.rest).2.1) := by
  induction fuel generalizing e source' plan with
  | zero =>
    have none : plan.rest = [] := List.eq_nil_of_length_eq_zero (Nat.le_zero.mp enough)
    unfold Plan.proceed
    rw [none]
    exact .refl _
  | succ fuel ih =>
    cases filled : plan.rest with
    | nil =>
      unfold Plan.proceed
      rw [filled]
      exact .refl _
    | cons p more =>
      rw [Plan.proceedNext e filled, Engine.scanBatches, ← filled]
      dsimp only
      let later : Plan := { plan with rest := plan.rest.drop e.settings.limits.batchSize }
      obtain ⟨outcomes, listed, sizes, driven⟩ := @Drives.batch source source' now e later [] []
        (plan.rest.take e.settings.limits.batchSize) disk faults
      rw [List.reverse_nil, List.nil_append] at listed
      obtain ⟨disk', faults'⟩ := (viewKept source).batch [] (plan.rest.take e.settings.limits.batchSize) ⟨disk, faults⟩
      have settings := @Engine.Kept.batch _ e source' (Engine.settingsKept e.settings) []
        (plan.rest.take e.settings.limits.batchSize) rfl
      refine Drives.trans driven (.step .next ?_)
      rw [listed]
      simp only [Stage.resume, List.nil_append, outcomesFinished]
      cases added : plan.tally.add now ((plan.rest.take e.settings.limits.batchSize).zip outcomes) with
      | error fault =>
        unfold Plan.takeIn
        rw [added]
        exact .refl _
      | ok tally =>
        obtain ⟨recent, taken⟩ := @Drives.takeIn source now
          (e.scanBatch source' [] (plan.rest.take e.settings.limits.batchSize)).2.1 later _ _ added
        refine taken.trans (ih (by rwa [settings]) ?_ disk' faults')
        rw [List.length_drop]
        rw [filled, List.length_cons] at enough ⊢
        omega

theorem Drives.walk {w w' : Walk} {fuel : Nat} (walked : Walk.run e.selector source fuel w = .ok w') :
    Drives source now (survey e now w, e) (survey e now w', e) := by
  induction fuel generalizing w with
  | zero =>
    cases walked
    exact .refl _
  | succ fuel ih =>
    unfold Walk.run at walked
    cases next : w.stack with
    | nil =>
      rw [next] at walked
      cases walked
      exact .refl _
    | cons dir stack =>
      rw [next] at walked
      dsimp only at walked
      cases stepped : w.step e.selector source with
      | error fault =>
        rw [stepped] at walked
        contradiction
      | ok w'' =>
        rw [stepped] at walked
        have waits : survey e now w = .waits (.listing w) := by
          unfold survey
          rw [next]
        rw [waits]
        refine .step .next ?_
        simp only [Stage.resume, stepped]
        exact ih walked

end

section
variable {source : Source} {now : String}

theorem answeredAlone {f : Flight} {ask : Ask} {result : Except Fault ScanResult} {e : Engine}
    (idle : f.engine.scanning = false) (fresh : ∀ scan ∈ f.running, scan.1 ≠ f.calls)
    (driven : Drives source now (ask.start { f.engine with scanning := true } now, { f.engine with scanning := true })
      (.ends result, e)) :
    ∃ moves : List Move, f.run (.call ask now :: moves.map (.resume f.calls source now)) =
      { f with
        engine := e.settle result
        calls := f.calls + 1
        replies := ⟨f.calls, true, result⟩ :: f.replies } := by
  obtain ⟨moves, driven⟩ := driven
  refine ⟨moves, ?_⟩
  have started : f.step (.call ask now) =
      { f with calls := f.calls + 1, engine := { f.engine with scanning := true } }.land f.calls
        (ask.start { f.engine with scanning := true } now) := by
    rw [step, idle, if_neg Bool.false_ne_true]
  have ran := @runAlone source now { f with calls := f.calls + 1 } f.calls
    (ask.start { f.engine with scanning := true } now, { f.engine with scanning := true }) moves
  rw [driven] at ran
  change (f.step (.call ask now)).run _ = _
  rw [started, ran, land]
  have kept : f.running.filter (fun scan => scan.1 != f.calls) = f.running :=
    List.filter_eq_self.mpr fun scan member => by simpa using fresh scan member
  rw [kept]

theorem filesAlone {f : Flight} (paths : List String) (idle : f.engine.scanning = false)
    (fresh : ∀ scan ∈ f.running, scan.1 ≠ f.calls) (sized : 0 < f.engine.settings.limits.batchSize) :
    ∃ moves : List Move, f.run (.call (.files source.disk.here paths) now :: moves.map (.resume f.calls source now)) =
      { f with
        engine := (f.engine.scanFiles source now paths).2.1
        calls := f.calls + 1
        replies := ⟨f.calls, true, (f.engine.scanFiles source now paths).1⟩ :: f.replies } := by
  unfold Engine.scanFiles Engine.scanFilesBy
  rw [idle, if_neg Bool.false_ne_true]
  dsimp only
  apply answeredAlone idle fresh
  rw [Ask.start]
  cases paths.mapM (Path.resolve source.disk.here) with
  | error fault => exact .refl _
  | ok places =>
    let wanted := (Engine.distinct places).filter (fun p => f.engine.eligible source.disk.here p.text)
    exact @Drives.batches source source now { f.engine with scanning := true }
      { total := wanted.length, rest := wanted, tally := {} } wanted.length sized (Nat.le_refl _) rfl rfl

theorem workspaceAlone {f : Flight} (idle : f.engine.scanning = false)
    (fresh : ∀ scan ∈ f.running, scan.1 ≠ f.calls) (sized : 0 < f.engine.settings.limits.batchSize)
    (tree : source.disk.Tree) (system : source.faults.SystemOnly) :
    ∃ moves : List Move, f.run (.call .workspace now :: moves.map (.resume f.calls source now)) =
      { f with
        engine := (f.engine.scanWorkspace source now).2.1
        calls := f.calls + 1
        replies := ⟨f.calls, true, (f.engine.scanWorkspace source now).1⟩ :: f.replies } := by
  obtain ⟨w, ran, done, -⟩ := Walk.runKeeps f.engine.selector tree system (Walk.startLoad f.engine.selector source)
  have walked : Walk.collect f.engine.selector source =
      .ok { w with found := w.found.mergeSort AbsPath.notAfter } := by
    unfold Walk.collect
    rw [ran]
    rfl
  unfold Engine.scanWorkspace
  rw [idle, if_neg Bool.false_ne_true, walked]
  dsimp only
  apply answeredAlone idle fresh
  refine Drives.trans (Drives.walk (e := { f.engine with scanning := true }) ran) ?_
  unfold survey
  rw [done]
  have gathered := @Drives.batches source source now { f.engine with scanning := true }
    { total := w.found.length, rest := w.found.mergeSort AbsPath.notAfter,
      tally := { errors := (Engine.walkErrors now w).reverse } }
    (w.found.mergeSort AbsPath.notAfter).length sized (Nat.le_refl _) rfl rfl
  unfold Engine.scanPaths
  rw [List.length_mergeSort] at gathered ⊢
  exact gathered

end

theorem Single.fresh {first : Engine} {f : Flight} (single : Single first f) :
    ∀ scan ∈ f.running, scan.1 ≠ f.calls := by
  intro scan member
  have known := single.once.subset (List.mem_append_left _ (List.mem_map_of_mem member))
  exact Nat.ne_of_lt (List.mem_range.mp known)

theorem singleFlight (settings : Settings) (cache : Cache) (last : Option ScanResult) (events : List Event) :
    let f := Flight.run { engine := { settings, cache, last } } events
    Single { settings, cache, last } f ∧
      (f.engine.scanning = true → ∀ ask now, f.step (.call ask now) =
        { f with calls := f.calls + 1, replies := ⟨f.calls, false, .ok .empty⟩ :: f.replies }) ∧
      (f.engine.scanning = false → 0 < settings.limits.batchSize → ∀ source now,
        (∀ paths, ∃ moves : List Move,
          f.run (.call (.files source.disk.here paths) now :: moves.map (.resume f.calls source now)) =
            { f with
              engine := (f.engine.scanFiles source now paths).2.1
              calls := f.calls + 1
              replies := ⟨f.calls, true, (f.engine.scanFiles source now paths).1⟩ :: f.replies }) ∧
        (source.disk.Tree → source.faults.SystemOnly → ∃ moves : List Move,
          f.run (.call .workspace now :: moves.map (.resume f.calls source now)) =
            { f with
              engine := (f.engine.scanWorkspace source now).2.1
              calls := f.calls + 1
              replies := ⟨f.calls, true, (f.engine.scanWorkspace source now).1⟩ :: f.replies })) := by
  have single := (@Single.start { settings, cache, last } rfl).run events
  refine ⟨single, ?_, ?_⟩
  · intro busy ask now
    rw [step, if_pos busy]
  · intro idle sized source now
    have batches := congrArg (fun s : Settings => s.limits.batchSize) single.settings
    exact ⟨fun paths => filesAlone paths idle single.fresh (batches ▸ sized),
      fun tree system => workspaceAlone idle single.fresh (batches ▸ sized) tree system⟩

def underWay : Flight :=
  Flight.run { engine := { settings := Engine.rooted [⟨["w"]⟩] } }
    [.call .workspace "t", .resume 0 Engine.oneFile "t" .next, .resume 0 Engine.oneFile "t" .next,
      .resume 0 Engine.oneFile "t" (.file 0)]

theorem overlapRefused : underWay.engine.scanning = true ∧ underWay.running.length = 1 ∧
    underWay.step (.call (.files ⟨["w"]⟩ ["gen/a.php"]) "u") =
      { underWay with
        calls := underWay.calls + 1
        replies := ⟨underWay.calls, false, .ok .empty⟩ :: underWay.replies } ∧
    (underWay.step (.fail 0 (.crash "cancelled"))).engine.scanning = false := by
  have busy : underWay.engine.scanning = true := by decide +kernel
  have single := singleFlight (Engine.rooted [⟨["w"]⟩]) {} none
    [.call .workspace "t", .resume 0 Engine.oneFile "t" .next, .resume 0 Engine.oneFile "t" .next,
      .resume 0 Engine.oneFile "t" (.file 0)]
  exact ⟨busy, by decide +kernel, single.2.1 busy (.files ⟨["w"]⟩ ["gen/a.php"]) "u", by decide +kernel⟩

end DebugSweep.Flight
