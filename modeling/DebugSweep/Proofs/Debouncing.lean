import DebugSweep.Proofs.Reloading

/-! Triggers of a watcher, counted. Main statement: in whatever order triggers, cancels, delays and scans
come, an accepted trigger has begun its scan, or was cancelled before its task went on from the delay, or is the
pending one; a task has not gone on yet exactly while one is pending; and a scan that is begun is one of the
workspace. Turns, polls and waits are made of such steps. -/
namespace DebugSweep.Watch

def Stage.waits : Stage → Bool
  | .created | .delayed | .expired => true
  | _ => false

def Task.waits (t : Task) : Bool := t.stage.waits && !t.cancelling

def Task.inDelay (t : Task) : Bool :=
  match t.stage with
  | .created | .delayed => !t.cancelling
  | _ => false

def Task.begins (t : Task) : Bool :=
  match t.stage with
  | .expired => !t.cancelling
  | _ => false

theorem Task.beginsWaiting {t : Task} (begins : t.begins = true) : t.waits = true := by
  obtain ⟨stage, cancelling⟩ := t
  cases stage with
  | expired => exact begins
  | _ => contradiction

theorem Task.waitsParts (t : Task) : t.waits.toNat = t.inDelay.toNat + t.begins.toNat := by
  obtain ⟨stage, cancelling⟩ := t
  cases stage <;> simp [waits, Stage.waits, inDelay, begins]

namespace State

def advance (now : String) (s : State) (index : Nat) : State :=
  match s.tasks[index]? with
  | none => s
  | some t =>
      let (stage, s') := s.stepTask now t
      { s' with tasks := s.tasks.set index { t with stage } }

/-- A scan that has begun is found at another stage. -/
def shift (s : State) (index : Nat) (stage : Stage) : State :=
  match s.tasks[index]? with
  | none => s
  | some t => if t.stage.waits || stage.waits then s else { s with tasks := s.tasks.set index { t with stage } }

section
variable {now : String} {s : State} {t : Task}

theorem failKeeps (fault : Fault) :
    (s.fail fault).1.waits = false ∧ (s.fail fault).2.pending = s.pending ∧
      (s.fail fault).2.scansBegun = s.scansBegun := ⟨rfl, rfl, rfl⟩

theorem proceedKeeps (job : Job) :
    (s.proceed job).1.waits = false ∧ (s.proceed job).2.pending = s.pending ∧
      (s.proceed job).2.scansBegun = s.scansBegun := by
  unfold proceed
  split <;> exact ⟨rfl, rfl, rfl⟩

theorem launchEnds :
    (s.launch now).1.waits = false ∧ (s.launch now).2.pending = false ∧
      (s.launch now).2.scansBegun = s.scansBegun + 1 := by
  unfold launch beginScan
  dsimp only
  split
  · exact ⟨rfl, rfl, rfl⟩
  · split
    · exact failKeeps _
    · exact proceedKeeps _

theorem stepLaunches (begins : t.begins = true) : s.stepTask now t = s.launch now := by
  obtain ⟨stage, cancelling⟩ := t
  cases stage with
  | expired =>
    obtain rfl : cancelling = false := by simpa [Task.begins] using begins
    rfl
  | _ => contradiction

theorem stepIdles (idles : t.begins = false) :
    ((s.stepTask now t).1.waits && !t.cancelling) = t.waits ∧ (s.stepTask now t).2.pending = s.pending ∧
      (s.stepTask now t).2.scansBegun = s.scansBegun := by
  obtain ⟨stage, cancelling⟩ := t
  cases stage with
  | created =>
    cases cancelling with
    | true => exact ⟨rfl, rfl, rfl⟩
    | false =>
      refine ⟨?_, rfl, rfl⟩
      dsimp only [stepTask]
      split <;> rfl
  | expired =>
    obtain rfl : cancelling = true := by simpa [Task.begins] using idles
    exact ⟨rfl, rfl, rfl⟩
  | reported job outcomes =>
    cases cancelling with
    | true => exact ⟨rfl, rfl, rfl⟩
    | false =>
      unfold stepTask
      dsimp only
      split
      · exact ⟨rfl, rfl, rfl⟩
      · obtain ⟨begun, same⟩ := @proceedKeeps s { job with tally := ‹_› }
        exact ⟨by rw [begun]; rfl, same⟩
  | _ => cases cancelling <;> exact ⟨rfl, rfl, rfl⟩

-- All that a step does to what waits: its task stops waiting when its scan begins, and the flag falls then.
theorem stepWaits :
    ((s.stepTask now t).1.waits && !t.cancelling) = (t.waits && !t.begins) ∧
      (s.stepTask now t).2.pending = (s.pending && !t.begins) ∧
      (s.stepTask now t).2.scansBegun = s.scansBegun + t.begins.toNat := by
  cases begins : t.begins with
  | true =>
    obtain ⟨begun, calm, counted⟩ := @launchEnds now s
    simp [stepLaunches begins, begun, calm, counted]
  | false =>
    obtain ⟨waits, same, counted⟩ := @stepIdles now s t begins
    simp [waits, same, counted]

-- Steps neither read nor change the list of tasks, so that a turn is one step of each task after the other.
theorem proceedFrame (job : Job) (tasks : List Task) :
    proceed { s with tasks } job = ((s.proceed job).1, { (s.proceed job).2 with tasks }) := by
  unfold proceed
  split <;> rfl

theorem launchFrame (tasks : List Task) :
    launch now { s with tasks } = ((s.launch now).1, { (s.launch now).2 with tasks }) := by
  unfold launch beginScan
  dsimp only
  split
  · rfl
  · generalize Walk.collect _ s.source = walked
    cases walked with
    | error fault => rfl
    | ok w =>
      exact @proceedFrame { s with
        pending := false, scansBegun := s.scansBegun + 1, engine := { s.engine with scanning := true } } _ tasks

theorem stepFrame (tasks : List Task) :
    stepTask now { s with tasks } t = ((s.stepTask now t).1, { (s.stepTask now t).2 with tasks }) := by
  obtain ⟨stage, cancelling⟩ := t
  cases stage with
  | expired =>
    cases cancelling with
    | false => exact launchFrame tasks
    | true => rfl
  | reported job outcomes =>
    cases cancelling with
    | true => rfl
    | false =>
      unfold stepTask
      dsimp only
      split
      · rfl
      · exact proceedFrame _ tasks
  | _ => cases cancelling <;> rfl

theorem advanceNext (done rest : List Task) :
    advance now { s with tasks := done.reverse ++ t :: rest } done.length =
      { (s.stepTask now t).2 with
        tasks := (({ t with stage := (s.stepTask now t).1 } : Task) :: done).reverse ++ rest } := by
  unfold advance
  simp [stepFrame]

theorem stepTasksAdvance (done rest : List Task) :
    s.stepTasks now done rest =
      (List.range' done.length rest.length).foldl (advance now) { s with tasks := done.reverse ++ rest } := by
  induction rest generalizing s done with
  | nil => simp [stepTasks]
  | cons t rest ih =>
    rw [List.length_cons, List.range'_succ, List.foldl_cons, advanceNext, stepTasks]
    exact ih _

theorem turnAdvances : s.turn now = (List.range s.tasks.length).foldl (advance now) s := by
  rw [turn, stepTasksAdvance, List.range_eq_range']
  rfl

theorem markedStill : (markCancelled t).waits = false := by
  obtain ⟨stage, cancelling⟩ := t
  cases stage <;> simp [markCancelled, Task.isDone, Task.waits, Stage.waits]

end

/-- Only the task of the last trigger can wait, and it does just while a scan is pending. -/
inductive Sole (s : State) : Prop where
  | none (empty : s.tasks = []) (calm : s.pending = false)
  | last (older : List Task) (latest : Task) (tasks : s.tasks = older ++ [latest])
      (past : ∀ t ∈ older, t.waits = false) (flag : s.pending = latest.waits)

section
variable {s s' : State}

theorem Sole.count (sole : s.Sole) : s.tasks.countP Task.waits = s.pending.toNat := by
  cases sole with
  | none empty calm => simp [empty, calm]
  | last older latest tasks past flag =>
    have still : older.countP Task.waits = 0 := List.countP_eq_zero.mpr (by simpa using past)
    rw [tasks, List.countP_append, still, flag]
    cases waits : latest.waits <;> simp [waits]

theorem Sole.calm (sole : s.Sole) (calm : s.pending = false) : ∀ t ∈ s.tasks, t.waits = false := by
  have none := sole.count
  rw [calm, Bool.toNat_false, List.countP_eq_zero] at none
  exact fun t member => by simpa using none t member

theorem Sole.pending {t : Task} (sole : s.Sole) (member : t ∈ s.tasks) (waits : t.waits = true) :
    s.pending = true := by
  cases calm : s.pending with
  | true => rfl
  | false =>
    rw [sole.calm calm t member] at waits
    contradiction

theorem Sole.latest (sole : s.Sole) : s.tasks.getLast?.any Task.waits = s.pending := by
  cases sole with
  | none empty calm => simp [empty, calm]
  | last older latest tasks past flag => simp [tasks, flag]

theorem Sole.trigger (sole : s.Sole) : s.trigger.2.Sole := by
  unfold State.trigger
  split
  · exact sole
  · rename_i free
    simp only [Bool.or_eq_true, not_or, Bool.not_eq_true] at free
    exact .last _ {} rfl (fun t member => sole.calm free.2 t (List.mem_filter.mp member).1) rfl

theorem Sole.cancel (sole : s.Sole) : s.cancel.Sole := by
  cases sole with
  | none empty calm => exact .none (by simp [State.cancel, empty]) (by simp [State.cancel, empty])
  | last older latest tasks past flag =>
    refine .last older (markCancelled latest) ?_ past ?_
    · simp [State.cancel, tasks]
    · simp [State.cancel, tasks, markedStill]

theorem Sole.set {index : Nat} {t t' : Task} {begins : Bool} (sole : s.Sole) (here : s.tasks[index]? = some t)
    (waiting : begins = true → t.waits = true) (waits : t'.waits = (t.waits && !begins))
    (tasks : s'.tasks = s.tasks.set index t') (flag : s'.pending = (s.pending && !begins)) : s'.Sole := by
  cases sole with
  | none empty calm => simp [empty] at here
  | last older latest split past same =>
    rw [split, List.set_append] at tasks
    rw [split] at here
    by_cases early : index < older.length
    · rw [List.getElem?_append_left early] at here
      have still := past t (List.mem_of_getElem? here)
      obtain rfl : begins = false := by
        cases begins with
        | false => rfl
        | true => simp [still] at waiting
      rw [if_pos early] at tasks
      refine .last _ latest tasks ?_ (by rw [flag, same, Bool.not_false, Bool.and_true])
      intro u member
      rcases List.mem_or_eq_of_mem_set member with old | rfl
      · exact past u old
      · rw [waits, still, Bool.false_and]
    · rw [List.getElem?_append_right (by omega), List.getElem?_singleton] at here
      split at here
      · rename_i last
        obtain rfl := Option.some.inj here
        rw [if_neg early, last] at tasks
        exact .last older t' tasks past (by rw [flag, same, waits])
      · contradiction

end
end State

namespace State

def goOn (now : String) : Nat → Stage × State → Stage × State
  | 0, place => place
  | count + 1, (stage, s) => goOn now count (s.stepTask now { stage })

def Ends (now : String) (place : Stage × State) (outcome : Except Fault ScanResult × Engine × Source) : Prop :=
  ∃ count s', goOn now count place = (.finished outcome.1, s') ∧ s'.engine = outcome.2.1 ∧ s'.source = outcome.2.2

section
variable {now : String} {s : State} {outcome : Except Fault ScanResult × Engine × Source}

theorem Ends.step {stage : Stage} (ends : Ends now (s.stepTask now { stage }) outcome) :
    Ends now (stage, s) outcome := by
  obtain ⟨count, s', reached⟩ := ends
  exact ⟨count + 1, s', reached⟩

def batchesGive (now : String) (s : State) (job : Job) (fuel : Nat) : Except Fault ScanResult × Engine × Source :=
  let (tally, e, source) := s.engine.scanBatches s.source now job.tally fuel job.rest
  let result := tally.map (·.result job.total)
  (result, e.settle result, source)

-- The induction is on the batches; three steps of the task are one batch of the call.
theorem batchesEnd {job : Job} {fuel : Nat} (sized : 0 < s.engine.settings.limits.batchSize)
    (enough : job.rest.length ≤ fuel) : Ends now (s.proceed job) (s.batchesGive now job fuel) := by
  induction fuel generalizing s job with
  | zero =>
    have none : job.rest = [] := List.eq_nil_of_length_eq_zero (Nat.le_zero.mp enough)
    unfold proceed batchesGive
    rw [none]
    exact ⟨0, _, rfl, rfl, rfl⟩
  | succ fuel ih =>
    cases left : job.rest with
    | nil =>
      unfold proceed batchesGive
      rw [left]
      exact ⟨0, _, rfl, rfl, rfl⟩
    | cons p rest =>
      let size := s.engine.settings.limits.batchSize
      let batch := job.rest.take size
      let scanned := s.engine.scanBatch s.source [] batch
      let s' : State := { s with engine := scanned.2.1, source := scanned.2.2 }
      have settings : s'.engine.settings = s.engine.settings :=
        (Engine.settingsKept s.engine.settings).batch [] batch rfl
      have proceeds : s.proceed job = (.batch { job with batch, rest := job.rest.drop size }, s) := by
        unfold proceed
        rw [left]
        dsimp only
        rw [← left]
      rw [proceeds]
      apply Ends.step
      apply Ends.step
      apply Ends.step
      unfold batchesGive
      rw [left, Engine.scanBatches, ← left]
      change Ends now (s'.stepTask now { stage := .reported { job with batch, rest := job.rest.drop size } scanned.1 }) _
      unfold stepTask
      dsimp only
      cases added : job.tally.add now (batch.zip scanned.1) with
      | error fault =>
        exact ⟨0, _, rfl, rfl, rfl⟩
      | ok tally =>
        have fewer : (job.rest.drop size).length ≤ fuel := by
          rw [left, List.length_cons] at enough
          rw [List.length_drop, left, List.length_cons]
          omega
        exact @ih s' { job with batch, rest := job.rest.drop size, tally } (by rw [settings]; exact sized) fewer

theorem scanEnds (sized : 0 < s.engine.settings.limits.batchSize) :
    Ends now (s.beginScan now) (s.engine.scanWorkspace s.source now) := by
  unfold beginScan Engine.scanWorkspace
  dsimp only
  cases running : s.engine.scanning with
  | true => exact ⟨0, _, rfl, rfl, rfl⟩
  | false =>
    rw [if_neg Bool.false_ne_true, if_neg Bool.false_ne_true]
    have same : Engine.selector { s.engine with scanning := true } = s.engine.selector := rfl
    rw [same]
    cases Walk.collect s.engine.selector s.source with
    | error fault => exact ⟨0, _, rfl, rfl, rfl⟩
    | ok w =>
      let s' : State := { s with scansBegun := s.scansBegun + 1, engine := { s.engine with scanning := true } }
      let job : Job :=
        { total := w.found.length
          batch := []
          rest := w.found
          tally := { errors := (Engine.walkErrors now w).reverse } }
      exact @batchesEnd now s' job _ sized (Nat.le_refl _)

end
end State

inductive Act where
  | trigger
  | cancel
  | advance (index : Nat) (now : String)
  | expire (index : Nat)
  /-- A scan waits more often than its task has stages, so that it can be found at any of them. -/
  | shift (index : Nat) (stage : Stage)
  /-- Other scans run, files change, results are handed on. -/
  | outside (other : State)

structure Ledger where
  state : State
  accepted : Nat := 0
  /-- Triggers cancelled before their delay was over, and those cancelled when it was but no scan had begun. -/
  early : Nat := 0
  late : Nat := 0

namespace Ledger

def after (l : Ledger) : Act → Ledger
  | .trigger => { l with state := l.state.trigger.2, accepted := l.accepted + l.state.trigger.1.toNat }
  | .cancel =>
      { l with
        state := l.state.cancel
        early := l.early + (l.state.tasks.getLast?.any Task.inDelay).toNat
        late := l.late + (l.state.tasks.getLast?.any Task.begins).toNat }
  | .advance index now => { l with state := l.state.advance now index }
  | .expire index => { l with state := l.state.expire index }
  | .shift index stage => { l with state := l.state.shift index stage }
  | .outside other =>
      { l with
        state := { other with
          prompt := l.state.prompt
          pending := l.state.pending
          tasks := l.state.tasks
          scansBegun := l.state.scansBegun } }

structure Balanced (l : Ledger) : Prop where
  sole : l.state.Sole
  counts : l.accepted = l.state.scansBegun + l.early + l.late + l.state.pending.toNat

section
variable {l : Ledger}

theorem Balanced.trigger (balanced : l.Balanced) : (l.after .trigger).Balanced := by
  refine ⟨balanced.sole.trigger, ?_⟩
  have counts := balanced.counts
  dsimp only [after, State.trigger]
  split
  · simpa using counts
  · rename_i free
    simp only [Bool.or_eq_true, not_or, Bool.not_eq_true] at free
    rw [free.2] at counts
    simpa using counts

theorem Balanced.cancel (balanced : l.Balanced) : (l.after .cancel).Balanced := by
  refine ⟨balanced.sole.cancel, ?_⟩
  have calm : l.state.cancel.pending = false ∧ l.state.cancel.scansBegun = l.state.scansBegun := by
    unfold State.cancel
    split <;> exact ⟨rfl, rfl⟩
  have parts : l.state.pending.toNat =
      (l.state.tasks.getLast?.any Task.inDelay).toNat + (l.state.tasks.getLast?.any Task.begins).toNat := by
    rw [← balanced.sole.latest]
    cases l.state.tasks.getLast? with
    | none => rfl
    | some t => exact t.waitsParts
  have counts := balanced.counts
  dsimp only [after]
  rw [calm.1, calm.2, Bool.toNat_false]
  omega

theorem Balanced.advance (balanced : l.Balanced) (index : Nat) (now : String) :
    (l.after (.advance index now)).Balanced := by
  dsimp only [after, State.advance]
  cases here : l.state.tasks[index]? with
  | none => exact balanced
  | some t =>
    obtain ⟨waits, flag, counted⟩ := @State.stepWaits now l.state t
    let t' : Task := { t with stage := (l.state.stepTask now t).1 }
    refine ⟨@State.Sole.set _ _ index t t' t.begins balanced.sole here Task.beginsWaiting waits rfl flag, ?_⟩
    have counts := balanced.counts
    dsimp only
    rw [flag, counted]
    cases begins : t.begins with
    | true =>
      rw [balanced.sole.pending (List.mem_of_getElem? here) (Task.beginsWaiting begins)] at counts ⊢
      simp at counts ⊢
      omega
    | false => simpa using counts

theorem Balanced.expire (balanced : l.Balanced) (index : Nat) : (l.after (.expire index)).Balanced := by
  dsimp only [after, State.expire]
  split
  · rename_i here
    exact ⟨@State.Sole.set _ _ index _ ⟨.expired, false⟩ false balanced.sole here (by simp) rfl rfl (by simp),
      balanced.counts⟩
  · exact balanced

theorem Balanced.shift (balanced : l.Balanced) (index : Nat) (stage : Stage) :
    (l.after (.shift index stage)).Balanced := by
  dsimp only [after, State.shift]
  cases here : l.state.tasks[index]? with
  | none => exact balanced
  | some t =>
    dsimp only
    split
    · exact balanced
    · rename_i begun
      simp only [Bool.or_eq_true, not_or, Bool.not_eq_true] at begun
      refine ⟨@State.Sole.set _ _ index t { t with stage } false balanced.sole here (by simp) ?_ rfl ?_,
        balanced.counts⟩
      · simp [Task.waits, begun]
      · simp

theorem Balanced.outside (balanced : l.Balanced) (other : State) :
    (l.after (.outside other)).Balanced := by
  refine ⟨?_, balanced.counts⟩
  cases balanced.sole with
  | none empty calm => exact .none empty calm
  | last older latest tasks past flag => exact .last older latest tasks past flag

theorem Balanced.after (balanced : l.Balanced) (act : Act) : (l.after act).Balanced := by
  cases act with
  | trigger => exact balanced.trigger
  | cancel => exact balanced.cancel
  | advance index now => exact balanced.advance index now
  | expire index => exact balanced.expire index
  | shift index stage => exact balanced.shift index stage
  | outside other => exact balanced.outside other

theorem Balanced.run (balanced : l.Balanced) (acts : List Act) : (acts.foldl Ledger.after l).Balanced := by
  induction acts generalizing l with
  | nil => exact balanced
  | cons act rest ih => exact ih (balanced.after act)

end

def Counted (s : State) (t : Task) (now : String) : Prop :=
  (s.stepTask now t).2.scansBegun = s.scansBegun ∨
    (s.stepTask now t).2.scansBegun = s.scansBegun + 1 ∧
      State.Ends now (s.stepTask now t) (s.engine.scanWorkspace s.source now)

theorem stepCounted {s : State} (t : Task) (now : String) (sized : 0 < s.engine.settings.limits.batchSize) :
    Counted s t now := by
  obtain ⟨-, -, counted⟩ := @State.stepWaits now s t
  cases begins : t.begins with
  | false => exact .inl (by simpa [begins] using counted)
  | true =>
    refine .inr ⟨by simpa [begins] using counted, ?_⟩
    rw [State.stepLaunches begins]
    exact @State.scanEnds now { s with pending := false } sized

theorem triggersCounted (engine : Engine) (source : Source) (prompt : Bool) (acts : List Act) :
    let l := acts.foldl after { state := { engine, source, prompt } }
    l.accepted = l.state.scansBegun + l.early + l.late + l.state.pending.toNat ∧
      l.state.tasks.countP Task.waits ≤ 1 ∧
      (l.state.tasks.countP Task.waits = 1 ↔ l.state.pending = true) ∧
      (0 < l.state.engine.settings.limits.batchSize → ∀ t ∈ l.state.tasks, ∀ now, Counted l.state t now) := by
  intro l
  have balanced : l.Balanced := Balanced.run ⟨.none rfl rfl, rfl⟩ acts
  refine ⟨balanced.counts, ?_⟩
  rw [balanced.sole.count]
  refine ⟨?_, ?_, fun sized t _ now => stepCounted t now sized⟩
  · cases l.state.pending <;> simp
  · cases l.state.pending <;> simp

def oneDump (prompt : Bool) : Ledger :=
  { state := {
      engine := { settings := Settings.default ⟨["w"]⟩ }
      source := { disk := { nodes := [(⟨["w"]⟩, .dir), (⟨["w", "a.php"]⟩, .file "dd(1);".toUTF8 1)] } }
      prompt } }

/-- The second trigger is absorbed, the first one is cancelled in its delay, and the delay of the third one is over. -/
def thirdTrigger : Ledger :=
  [.trigger, .trigger, .advance 0 "t", .cancel, .trigger, .advance 1 "t", .expire 1].foldl after (oneDump false)

theorem thirdTriggerScans :
    thirdTrigger.accepted = 2 ∧ thirdTrigger.early = 1 ∧ thirdTrigger.state.pending = true ∧
      thirdTrigger.accepted = thirdTrigger.state.scansBegun + thirdTrigger.early + thirdTrigger.late +
        thirdTrigger.state.pending.toNat ∧
      ∃ t ∈ thirdTrigger.state.tasks, (thirdTrigger.state.stepTask "t" t).2.scansBegun = 1 ∧
        State.Ends "t" (thirdTrigger.state.stepTask "t" t)
          (thirdTrigger.state.engine.scanWorkspace thirdTrigger.state.source "t") ∧
        (thirdTrigger.state.stepTask "t" t).2.engine.scanning = true := by
  obtain ⟨counts, -, -, counted⟩ := triggersCounted (oneDump false).state.engine (oneDump false).state.source false
    [.trigger, .trigger, .advance 0 "t", .cancel, .trigger, .advance 1 "t", .expire 1]
  have last : (⟨.expired, false⟩ : Task) ∈ thirdTrigger.state.tasks := List.mem_of_getElem? (i := 1) rfl
  refine ⟨by decide +kernel, by decide +kernel, by decide +kernel, counts, _, last, by decide +kernel, ?_,
    by decide +kernel⟩
  rcases counted (by decide +kernel) _ last "t" with none | ⟨-, ends⟩
  · exact absurd none (by decide +kernel)
  · exact ends

def overdue (prompt : Bool) : Ledger := [.trigger, .advance 0 "t", .expire 0].foldl after (oneDump prompt)

-- The task has not gone on yet, so that its trigger scans nothing when it is cancelled now.
theorem cancelledBehindDelay :
    ((overdue false).state.pending = true ∧ (overdue false).state.tasks.countP Task.inDelay = 0 ∧
      ((overdue false).after .cancel).accepted ≠ ((overdue false).after .cancel).state.scansBegun +
        ((overdue false).after .cancel).early + ((overdue false).after .cancel).state.pending.toNat) ∧
    (overdue true).state.pending = true ∧ (overdue true).state.tasks.countP Task.inDelay = 0 ∧
      ((overdue true).after .cancel).accepted ≠ ((overdue true).after .cancel).state.scansBegun +
        ((overdue true).after .cancel).early + ((overdue true).after .cancel).state.pending.toNat := by
  decide +kernel

/-- Acts that lead from one state to another, whatever was counted before. -/
def Leads (acts : List Act) (s s' : State) : Prop := ∀ l : Ledger, l.state = s → (acts.foldl after l).state = s'

theorem Leads.append {first next : List Act} {s s' s'' : State} (start : Leads first s s')
    (rest : Leads next s' s'') : Leads (first ++ next) s s'' := by
  intro l here
  rw [List.foldl_append]
  exact rest _ (start l here)

theorem eachLeads {next : State → Nat → State} (act : Nat → Act)
    (one : ∀ s index, Leads [act index] s (next s index)) (indices : List Nat) (s : State) :
    Leads (indices.map act) s (indices.foldl next s) := by
  induction indices generalizing s with
  | nil => exact fun l here => here
  | cons index rest ih => exact (one s index).append (ih (next s index))

section
variable (now : String) (s : State)

theorem turnLeads : ∃ acts, Leads acts s (s.turn now) := by
  rw [State.turnAdvances]
  refine ⟨_, eachLeads (Act.advance · now) ?_ _ s⟩
  rintro s index l rfl
  rfl

theorem elapseLeads : Leads ((List.range s.tasks.length).map .expire) s s.elapse := by
  refine eachLeads .expire ?_ _ s
  rintro s index l rfl
  rfl

theorem triggerLeads : Leads [.trigger] s s.trigger.2 := by
  rintro l rfl
  rfl

theorem pollLeads : ∃ acts, Leads acts s s.poll.2 := by
  have noted (seen : List (String × Nat × Int)) : Leads [.outside { s with snapshot := some seen }] s
      { s with snapshot := some seen } := by
    rintro l rfl
    rfl
  unfold State.poll
  split
  · exact ⟨[], fun l here => here⟩
  · dsimp only
    split
    · exact ⟨_, noted _⟩
    · split
      · exact ⟨_, noted _⟩
      · exact ⟨_, (noted _).append (triggerLeads _)⟩

theorem pollsLead (count : Nat) : ∃ acts, Leads acts s (s.polls now count).2 := by
  induction count generalizing s with
  | zero => exact ⟨[], fun l here => here⟩
  | succ count ih =>
    obtain ⟨looked, first⟩ := pollLeads s
    unfold State.polls
    split
    · rename_i s' polled
      rw [polled] at first
      exact ⟨looked, first⟩
    · rename_i s' polled
      rw [polled] at first
      obtain ⟨turned, next⟩ := turnLeads now s'
      obtain ⟨later, rest⟩ := ih (s'.turn now)
      exact ⟨_, (first.append next).append rest⟩

theorem waitLeads : ∃ acts, Leads acts s (s.wait now).2 := by
  have quiet (fuel : Nat) : ∃ acts, Leads acts s (s.turnsUntilQuiet now fuel) := by
    induction fuel generalizing s with
    | zero => exact ⟨[], fun l here => here⟩
    | succ fuel ih =>
      unfold State.turnsUntilQuiet
      split
      · exact ⟨[], fun l here => here⟩
      · obtain ⟨turned, next⟩ := turnLeads now s.elapse
        obtain ⟨later, rest⟩ := ih (s.elapse.turn now)
        exact ⟨_, (elapseLeads s).append (next.append rest)⟩
  unfold State.wait
  dsimp only
  split
  · exact quiet _
  · split <;> exact quiet _

end
end Ledger
end DebugSweep.Watch
