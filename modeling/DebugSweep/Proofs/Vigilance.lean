import DebugSweep.Proofs.Onward
import DebugSweep.Watch.Loop

/-! The watch loop against changes of files. Main statement: if changed files get sizes and times that
their paths never had, and no change is lost since the last scan began, then whenever the loop is quiet
the last result has the findings of the files as they are. -/
namespace DebugSweep
open Engine (statOf?)

namespace Flight

structure Going (settings : Settings) (d : Disk) (f : Flight) : Prop where
  onward : ∀ scan ∈ f.running, Onward settings d scan.2
  complete : f.running = [] → ∃ r, f.engine.last = some r ∧ Complete settings d r

section
variable {settings : Settings} {past : List Disk} {d d' : Disk} {f : Flight} {call : Nat} {turn : Turn}

theorem landGoing (none : f.running.filter (fun scan => scan.1 != call) = []) (turned : Turned settings d turn) :
    Going settings d (f.land call turn) := by
  cases turn with
  | waits stage =>
    refine ⟨?_, by simp [land]⟩
    intro scan member
    obtain rfl : scan = (call, stage) := by simpa [land, none] using member
    exact turned
  | ends result =>
    obtain ⟨r, rfl, complete⟩ := turned
    exact ⟨by simp [land, none], fun _ => ⟨r, rfl, complete⟩⟩

theorem landSane (none : f.running.filter (fun scan => scan.1 != call) = []) (sane : SaneTurn past turn) :
    ∀ scan ∈ (f.land call turn).running, Sane past scan.2 := by
  intro scan member
  cases turn with
  | waits stage =>
    obtain rfl : scan = (call, stage) := by simpa [land, none] using member
    exact sane
  | ends result => simp [land, none] at member

theorem landCache (f : Flight) (call : Nat) (turn : Turn) : (f.land call turn).engine.cache = f.engine.cache := by
  cases turn with
  | waits stage => rfl
  | ends result => cases result <;> rfl

theorem Going.agrees (going : Going settings d f) (housed : d.Housed) (housed' : d'.Housed)
    (agrees : d.Agrees (Engine.selector { settings }) d') : Going settings d' f := by
  refine ⟨fun scan member => (going.onward scan member).agrees housed housed' agrees, fun none => ?_⟩
  obtain ⟨r, last, complete⟩ := going.complete none
  exact ⟨r, last, complete.agrees housed housed' agrees⟩

theorem begun {first : Engine} (single : Single first f) (fixed : first.settings = settings)
    (idle : f.engine.scanning = false) (past : List Disk) (d : Disk) (now : String) :
    (f.step (.call .workspace now)).engine.cache = f.engine.cache ∧
      (∀ scan ∈ (f.step (.call .workspace now)).running, Sane past scan.2) ∧
      Going settings d (f.step (.call .workspace now)) := by
  have none := single.idle idle
  obtain rfl : f.engine.settings = settings := single.settings.trans fixed
  rw [step, idle, if_neg Bool.false_ne_true]
  refine ⟨landCache _ _ _, landSane (by simp [none]) ?_, landGoing (by simp [none]) ?_⟩
  · exact saneSurvey now (by simp [Walk.start])
  · exact @started f.engine.settings d { f.engine with scanning := true } now

theorem resumed {first : Engine} (single : Single first f) (fixed : first.settings = settings) (call : Nat)
    (now : String) (move : Move) (present : d ∈ past) (housed : d.Housed)
    (marked : Marked settings past d f.engine.cache) (sane : ∀ scan ∈ f.running, Sane past scan.2) :
    Marked settings past d (f.step (.resume call { disk := d } now move)).engine.cache ∧
      (∀ scan ∈ (f.step (.resume call { disk := d } now move)).running, Sane past scan.2) ∧
      (Going settings d f → Going settings d (f.step (.resume call { disk := d } now move))) := by
  obtain rfl : f.engine.settings = settings := single.settings.trans fixed
  rw [step]
  cases underWay : f.stage? call with
  | none => exact ⟨marked, sane, id⟩
  | some stage =>
    have alone := single.alone underWay
    have member : (call, stage) ∈ f.running := by simp [alone]
    obtain ⟨turned, marked'⟩ := (sane _ member).resume marked rfl present housed.toTree now move
    refine ⟨by rw [landCache]; exact marked', landSane (by simp [alone]) turned, fun going => ?_⟩
    exact landGoing (by simp [alone]) ((going.onward _ member).resume housed rfl marked now move)

end
end Flight

theorem Disk.fileStatAt (d : Disk) (p : AbsPath) :
    d.fileStat? p = (d.fileAt? p).map (fun file => ⟨file.1.size, file.2⟩) := by
  unfold Disk.fileStat? Disk.fileAt?
  split <;> simp_all

namespace Watch

def Snapshot.Dated (past : List Disk) (seen : Snapshot) : Prop :=
  ∀ p size mtime, p.Proper → (p.text, size, mtime) ∈ seen → ∃ old ∈ past, statOf? old p = some ⟨size, mtime⟩

def Snapshot.Shows (seen : Snapshot) (d : Disk) (p : AbsPath) : Prop :=
  ∀ size mtime, (p.text, size, mtime) ∈ seen ↔ d.fileStat? p = some ⟨size, mtime⟩

def Post.Sane (past : List Disk) : Post → Prop
  | .walking w => ∀ p ∈ w.found, p.Proper
  | .sizing files seen => (∀ p ∈ files, p.Proper) ∧ seen.Dated past
  | _ => True

namespace Loop
open Flight (Marked Sane Single Going)

structure Ground (settings : Settings) (past : List Disk) (l : Loop) : Prop where
  single : Single { settings } l.flight
  waited : l.pending = true → l.flight.engine.scanning = false
  present : l.disk ∈ past
  housed : l.disk.Housed
  marked : Marked settings past l.disk l.flight.engine.cache
  sane : ∀ scan ∈ l.flight.running, Sane past scan.2
  dated : ∀ seen, l.snapshot = some seen → seen.Dated past
  post : l.post.Sane past

section
variable {settings : Settings} {past : List Disk} {l : Loop} {d : Disk}

theorem notedDated {seen : Snapshot} {p : AbsPath} {stat : FileStat} (dated : seen.Dated past) (proper : p.Proper)
    (present : d ∈ past) (had : statOf? d p = some stat) :
    (seen.note (p.text, stat.size, stat.mtime)).Dated past := by
  intro q size mtime proper' member
  have cases' : (q.text, size, mtime) ∈ seen ∨ (q.text, size, mtime) = (p.text, stat.size, stat.mtime) := by
    unfold Snapshot.note at member
    split at member
    · obtain ⟨old, inside, same⟩ := List.mem_map.mp member
      split at same
      · exact .inr same.symm
      · exact .inl (same ▸ inside)
    · simpa using member
  rcases cases' with old | new
  · exact dated q size mtime proper' old
  · obtain ⟨text, rfl, rfl⟩ : q.text = p.text ∧ size = stat.size ∧ mtime = stat.mtime := by simpa using new
    obtain rfl := proper'.textInjective proper text
    exact ⟨d, present, had⟩

theorem watchCases (ground : Ground settings past l) :
    (∃ post : Post, post.Sane past ∧ l.watch = { l with post }) ∨
      ∃ seen : Snapshot, seen.Dated past ∧ l.watch = l.conclude seen := by
  have measured : ∀ files seen, (∀ p ∈ files, p.Proper) → Snapshot.Dated past seen →
      (∃ post : Post, post.Sane past ∧ l.measure files seen = { l with post }) ∨
        ∃ seen' : Snapshot, seen'.Dated past ∧ l.measure files seen = l.conclude seen' := by
    intro files seen proper dated
    cases files with
    | nil => exact .inr ⟨seen, dated, rfl⟩
    | cons p rest => exact .inl ⟨.sizing (p :: rest) seen, ⟨proper, dated⟩, rfl⟩
  have surveyed : ∀ w : Walk, (∀ p ∈ w.found, p.Proper) →
      (∃ post : Post, post.Sane past ∧ l.survey w = { l with post }) ∨
        ∃ seen : Snapshot, seen.Dated past ∧ l.survey w = l.conclude seen := by
    intro w proper
    unfold survey
    cases w.stack with
    | cons dir stack => exact .inl ⟨.walking w, proper, rfl⟩
    | nil =>
      refine measured _ [] (fun p member => ?_) (fun _ _ _ _ member => absurd member List.not_mem_nil)
      exact proper p (List.mem_mergeSort.mp (List.mem_filter.mp member).1)
  have known := ground.post
  have stays : (∃ post : Post, post.Sane past ∧ l = { l with post }) := ⟨l.post, known, rfl⟩
  unfold watch
  cases standing : l.post with
  | opening =>
    dsimp only
    split
    · exact surveyed _ (by simp [Walk.start])
    · exact .inl stays
  | resting => exact surveyed _ (by simp [Walk.start])
  | walking w =>
    rw [standing] at known
    dsimp only
    split
    · rename_i w' stepped
      exact surveyed w' (Walk.stepProper stepped ground.housed.toTree known)
    · exact .inl stays
  | sizing files seen =>
    rw [standing] at known
    cases files with
    | nil => exact .inr ⟨seen, known.2, rfl⟩
    | cons p rest =>
      have proper : ∀ q ∈ rest, q.Proper := fun q member => known.1 q (List.mem_cons_of_mem _ member)
      dsimp only
      split
      · rename_i stat sized
        exact measured rest _ proper (notedDated known.2 (known.1 p List.mem_cons_self) ground.present
          (Engine.statFound sized))
      · exact measured rest seen proper known.2

end

def Renewed (d : Disk) (past : List Disk) : List Event → Prop
  | [] => True
  | .outside d' :: rest => d'.Housed ∧ d.Renews past d' ∧ Renewed d' (d' :: past) rest
  | _ :: rest => Renewed d past rest

def Begins (l : Loop) : Event → Prop
  | .expire _ => l.pending = true
  | _ => False

/-- A watched file changes before there is a snapshot, or one that the snapshot lacks vanishes; or a poll
that finds a difference ends while a scan runs, so that none is asked for. -/
def Loses (l : Loop) : Event → Prop
  | .outside d => ∃ p, l.flight.engine.selector.Watches p ∧ d.fileAt? p ≠ l.disk.fileAt? p ∧
      ∀ seen, l.snapshot = some seen → d.fileAt? p = none ∧ p.text ∉ seen.map Prod.fst
  | .watch => l.flight.engine.scanning = true ∧ l.snapshot ≠ none ∧ l.watch.snapshot ≠ l.snapshot
  | _ => False

def Unbroken (l : Loop) (safe : Prop) : List Event → Prop
  | [] => safe
  | event :: rest => (l.step event).Unbroken (l.Begins event ∨ safe ∧ ¬ l.Loses event) rest

/-- What holds since the last scan began: a watched file that changed is shown otherwise by the snapshot, and
if none did then the scan is right. -/
structure Alert (settings : Settings) (since : List Disk) (safe : Prop) (l : Loop) : Prop where
  recent : l.disk ∈ since
  noticed : safe → l.pending = false → ∀ p, (Engine.selector { settings }).Watches p →
    (∀ d ∈ since, d.fileAt? p = l.disk.fileAt? p) ∨ ∃ seen, l.snapshot = some seen ∧ ¬ seen.Shows l.disk p
  going : (∀ d ∈ since, d.Agrees (Engine.selector { settings }) l.disk) → Going settings l.disk l.flight

section
variable {settings : Settings} {past since : List Disk} {safe : Prop} {l : Loop}

theorem selectorFixed (ground : Ground settings past l) : l.flight.engine.selector = Engine.selector { settings } := by
  unfold Engine.selector
  rw [ground.single.settings]

theorem Ground.outside {d : Disk} (ground : Ground settings past l) (housed : d.Housed)
    (renews : l.disk.Renews past d) : Ground settings (d :: past) { l with disk := d } := by
  have later : ∀ {seen : Snapshot}, seen.Dated past → seen.Dated (d :: past) := by
    intro seen dated p size mtime proper member
    obtain ⟨old, known, had⟩ := dated p size mtime proper member
    exact ⟨old, List.mem_cons_of_mem _ known, had⟩
  refine ⟨ground.single, ground.waited, List.mem_cons_self, housed, ground.marked.outside renews,
    fun scan member => (ground.sane scan member).later, fun seen same => later (ground.dated seen same), ?_⟩
  have post := ground.post
  change l.post.Sane (d :: past)
  cases standing : l.post with
  | opening => trivial
  | resting => trivial
  | walking w =>
    rw [standing] at post
    exact post
  | sizing files seen =>
    rw [standing] at post
    exact ⟨post.1, later post.2⟩

theorem changeSeen {d : Disk} {p : AbsPath} (ground : Ground settings past l) (renews : l.disk.Renews past d)
    (watches : (Engine.selector { settings }).Watches p) (changed : d.fileAt? p ≠ l.disk.fileAt? p)
    (kept : ¬ l.Loses (.outside d)) : ∃ seen, l.snapshot = some seen ∧ ¬ seen.Shows d p := by
  by_contra missed
  refine kept ⟨p, by rwa [selectorFixed ground], changed, fun seen known => ?_⟩
  have shows : seen.Shows d p := by
    by_contra other
    exact missed ⟨seen, known, other⟩
  have gone : d.fileAt? p = none := by
    by_contra there
    obtain ⟨⟨content, mtime⟩, held⟩ := Option.ne_none_iff_exists'.mp there
    have entry := (shows content.size mtime).mpr (by simp [Disk.fileStatAt, held])
    obtain ⟨old, member, had⟩ := ground.dated seen known p _ _ watches.proper entry
    rcases renews p content mtime held with same | fresh
    · exact changed (held.trans same.symm)
    · exact fresh old member had
  refine ⟨gone, fun member => ?_⟩
  obtain ⟨⟨_, size, mtime⟩, entry, rfl⟩ := List.mem_map.mp member
  have there := (shows size mtime).mp entry
  rw [Disk.fileStatAt, gone] at there
  contradiction

theorem Alert.outside {d : Disk} (alert : Alert settings since safe l) (ground : Ground settings past l)
    (housed : d.Housed) (renews : l.disk.Renews past d) :
    Alert settings (d :: since) (l.Begins (.outside d) ∨ safe ∧ ¬ l.Loses (.outside d)) { l with disk := d } := by
  refine ⟨List.mem_cons_self, ?_, ?_⟩
  · rintro (begins | ⟨safe, kept⟩) quiet p watches
    · exact begins.elim
    · by_cases same : d.fileAt? p = l.disk.fileAt? p
      · rcases alert.noticed safe quiet p watches with stayed | ⟨seen, known, shown⟩
        · left
          intro old member
          rcases List.mem_cons.mp member with rfl | before
          · rfl
          · exact (stayed old before).trans same.symm
        · right
          refine ⟨seen, known, fun shows => shown fun size mtime => (shows size mtime).trans ?_⟩
          rw [Disk.fileStatAt, Disk.fileStatAt, same]
      · obtain ⟨seen, known, shown⟩ := changeSeen ground renews watches same kept
        exact .inr ⟨seen, known, shown⟩
  · intro agree
    have before : ∀ old ∈ since, old.Agrees (Engine.selector { settings }) l.disk := by
      intro old member p watches
      exact (agree old (List.mem_cons_of_mem _ member) p watches).trans
        (agree l.disk (List.mem_cons_of_mem _ alert.recent) p watches).symm
    exact (alert.going before).agrees ground.housed housed
      (agree l.disk (List.mem_cons_of_mem _ alert.recent))

theorem Ground.scan (ground : Ground settings past l) (call : Nat) (now : String) (move : Flight.Move) :
    Ground settings past (l.step (.scan call now move)) := by
  obtain ⟨marked, sane, -⟩ := Flight.resumed ground.single rfl call now move ground.present ground.housed
    ground.marked ground.sane
  refine ⟨ground.single.moved (Flight.stepMoved l.flight (.resume call l.source now move)), fun waits => ?_,
    ground.present, ground.housed, marked, sane, ground.dated, ground.post⟩
  -- While a scan is waited for there is none that could go on.
  have idle := ground.waited waits
  have none := ground.single.idle idle
  have stays : l.flight.step (.resume call l.source now move) = l.flight := by
    simp [Flight.step, Flight.stage?, none]
  change (l.flight.step (.resume call l.source now move)).engine.scanning = false
  rw [stays, idle]

theorem Alert.scan (alert : Alert settings since safe l) (ground : Ground settings past l) (call : Nat)
    (now : String) (move : Flight.Move) :
    Alert settings since (l.Begins (.scan call now move) ∨ safe ∧ ¬ l.Loses (.scan call now move))
      (l.step (.scan call now move)) := by
  obtain ⟨-, -, going⟩ := Flight.resumed ground.single rfl call now move ground.present ground.housed
    ground.marked ground.sane
  refine ⟨alert.recent, ?_, fun agree => going (alert.going agree)⟩
  rintro (begins | ⟨safe, -⟩)
  · exact begins.elim
  · exact alert.noticed safe

theorem Ground.watch (ground : Ground settings past l) : Ground settings past l.watch := by
  rcases watchCases ground with ⟨post, sane, same⟩ | ⟨seen, dated, same⟩
  · rw [same]
    exact { ground with post := sane }
  · rw [same]
    refine { ground with waited := ?_, dated := ?_, post := trivial }
    · intro waits
      rcases Bool.or_eq_true_iff.mp waits with before | now
      · exact ground.waited before
      · exact Bool.not_eq_true' _ ▸ (Bool.and_eq_true_iff.mp now).2
    · rintro _ ⟨⟩
      exact dated

theorem Alert.watch (alert : Alert settings since safe l) (ground : Ground settings past l) :
    Alert settings since (l.Begins .watch ∨ safe ∧ ¬ l.Loses .watch) l.watch := by
  rcases watchCases ground with ⟨post, -, same⟩ | ⟨seen, -, same⟩
  · rw [same]
    refine ⟨alert.recent, ?_, alert.going⟩
    rintro (begins | ⟨safe, -⟩)
    · exact begins.elim
    · exact alert.noticed safe
  · rw [same]
    refine ⟨alert.recent, ?_, alert.going⟩
    rintro (begins | ⟨safe, kept⟩) quiet p watches
    · exact begins.elim
    · obtain ⟨waits, unasked⟩ := Bool.or_eq_false_iff.mp quiet
      rcases alert.noticed safe waits p watches with stayed | ⟨before, known, shown⟩
      · exact .inl stayed
      · have alike : seen = before := by
          by_contra differs
          have asked : (l.snapshot.any (· != seen) && !l.flight.engine.scanning) = false := unasked
          refine kept ⟨?_, by simp [known], ?_⟩
          · simpa [known, Ne.symm differs] using asked
          · rw [same, known]
            exact fun alike => differs (Option.some.inj alike)
        exact .inr ⟨before, congrArg some alike, shown⟩

-- A scan that begins now sees what there is now: nothing has changed since.
theorem scanBegins (now : String) (single : Single { settings } l.flight) (idle : l.flight.engine.scanning = false)
    (present : l.disk ∈ past) (housed : l.disk.Housed) (marked : Marked settings past l.disk l.flight.engine.cache)
    (dated : ∀ seen, l.snapshot = some seen → seen.Dated past) (post : l.post.Sane past) (safe : Prop) :
    Ground settings past { l with pending := false, flight := l.flight.step (.call .workspace now) } ∧
      Alert settings [l.disk] safe { l with pending := false, flight := l.flight.step (.call .workspace now) } := by
  obtain ⟨cache, sane, going⟩ := Flight.begun single rfl idle past l.disk now
  constructor
  · exact ⟨single.moved (Flight.stepMoved l.flight (.call .workspace now)), fun waits => by contradiction, present,
      housed, by rw [cache]; exact marked, sane, dated, post⟩
  · refine ⟨List.mem_singleton_self _, fun _ _ p _ => .inl ?_, fun _ => going⟩
    intro d member
    rw [List.mem_singleton.mp member]

theorem stepAlert {event : Event} {rest : List Event} (ground : Ground settings past l)
    (alert : Alert settings since safe l) (renewed : Renewed l.disk past (event :: rest)) :
    ∃ past' since', Ground settings past' (l.step event) ∧
      Alert settings since' (l.Begins event ∨ safe ∧ ¬ l.Loses event) (l.step event) ∧
      Renewed (l.step event).disk past' rest := by
  cases event with
  | outside d =>
    obtain ⟨housed, renews, later⟩ := renewed
    exact ⟨d :: past, d :: since, ground.outside housed renews, alert.outside ground housed renews, later⟩
  | scan call now move => exact ⟨past, since, ground.scan call now move, alert.scan ground call now move, renewed⟩
  | watch =>
    have same : l.watch.disk = l.disk := by
      rcases watchCases ground with ⟨post, -, same⟩ | ⟨seen, -, same⟩
      · rw [same]
      · rw [same]
        rfl
    refine ⟨past, since, ground.watch, alert.watch ground, ?_⟩
    change Renewed l.watch.disk past rest
    rw [same]
    exact renewed
  | expire now =>
    by_cases waits : l.pending = true
    · obtain ⟨ground', alert'⟩ := scanBegins now ground.single (ground.waited waits) ground.present ground.housed
        ground.marked ground.dated ground.post (l.Begins (.expire now) ∨ safe ∧ ¬ l.Loses (.expire now))
      rw [step, if_pos waits]
      exact ⟨past, [l.disk], ground', alert', renewed⟩
    · rw [step, if_neg waits]
      refine ⟨past, since, ground, ⟨alert.recent, ?_, alert.going⟩, renewed⟩
      rintro (begins | ⟨safe, -⟩)
      · exact absurd begins waits
      · exact alert.noticed safe

theorem runAlert {events : List Event} (ground : Ground settings past l) (alert : Alert settings since safe l)
    (renewed : Renewed l.disk past events) (unbroken : l.Unbroken safe events) :
    ∃ past' since' kept, Ground settings past' (l.run events) ∧ Alert settings since' kept (l.run events) ∧ kept := by
  induction events generalizing l past since safe with
  | nil => exact ⟨past, since, safe, ground, alert, unbroken⟩
  | cons event rest ih =>
    obtain ⟨past', since', ground', alert', renewed'⟩ := stepAlert ground alert renewed
    exact ih ground' alert' renewed' unbroken

theorem startAlert {d : Disk} (now : String) (housed : d.Housed) :
    Ground settings [d] (start settings d now) ∧ Alert settings [d] True (start settings d now) := by
  have marked : Marked settings [d] d {} := by
    constructor
    · intro p content mtime findings proper held hit
      contradiction
    · intro p entry proper known
      contradiction
  exact @scanBegins settings [d] { flight := { engine := { settings } }, disk := d } now
    (Single.start rfl) rfl List.mem_cons_self housed marked (fun _ known => by contradiction) trivial True

theorem lookShows {seen : Snapshot} {p : AbsPath} (ground : Ground settings past l) (looked : l.look = .ok seen)
    (watches : (Engine.selector { settings }).Watches p) : seen.Shows l.disk p := by
  obtain ⟨seen', looked', sees⟩ := @State.lookSees { engine := l.flight.engine, source := l.source }
    ground.housed.toTree rfl
  obtain rfl : seen = seen' := Except.ok.inj (looked.symm.trans looked')
  intro size mtime
  rw [sees]
  dsimp only
  rw [selectorFixed ground, ground.single.settings]
  constructor
  · rintro ⟨q, stat, ⟨root, -, reaches⟩, -, sized, same⟩
    obtain ⟨text, rfl, rfl⟩ : p.text = q.text ∧ size = stat.size ∧ mtime = stat.mtime := by simpa using same
    obtain rfl := watches.proper.textInjective (reaches.isFile ground.housed.toTree).1 text
    exact sized
  · intro sized
    obtain ⟨root, known, leads⟩ := watches.led
    have there : (l.disk.fileAt? p).isSome = true := by
      rw [Disk.fileStatAt] at sized
      simpa using congrArg Option.isSome sized
    exact ⟨p, ⟨size, mtime⟩, ⟨root, known, (Walk.reachesLeads ground.housed).mpr ⟨leads, there⟩⟩, watches.taken,
      sized, rfl⟩

end

def Current (settings : Settings) (now : String) (l : Loop) : Prop :=
  ∃ last fresh, l.flight.engine.last = some last ∧
    (({ settings } : Engine).scanWorkspace l.source now).1 = .ok fresh ∧ last.findings = fresh.findings

theorem quietCurrent {settings : Settings} {disk : Disk} {events : List Event} (now later : String)
    (sized : 0 < settings.limits.batchSize) (housed : disk.Housed) (renewed : Renewed disk [disk] events)
    (unbroken : (start settings disk now).Unbroken True events)
    (quiet : ((start settings disk now).run events).Quiet) :
    ((start settings disk now).run events).Current settings later := by
  obtain ⟨idle, unasked, seen, known, looked⟩ := quiet
  obtain ⟨ground, alert⟩ := @startAlert settings disk now housed
  obtain ⟨past, since, kept, ground, alert, safe⟩ := runAlert ground alert renewed unbroken
  have stayed : ∀ d ∈ since, d.Agrees (Engine.selector { settings }) ((start settings disk now).run events).disk := by
    intro d member p watches
    rcases alert.noticed safe unasked p watches with stayed | ⟨seen', known', shown⟩
    · exact stayed d member
    · obtain rfl : seen = seen' := Option.some.inj (known.symm.trans known')
      exact absurd (lookShows ground looked watches) shown
  obtain ⟨last, same, complete⟩ := (alert.going stayed).complete (ground.single.idle idle)
  obtain ⟨fresh, scanned, complete'⟩ := Flight.scanWorkspaceComplete later sized ground.housed
  exact ⟨last, fresh, same, scanned, complete.unique complete' ground.housed⟩

section
variable {l : Loop} {safe safe' : Prop} {event : Event} {rest : List Event}

theorem Unbroken.mono (unbroken : l.Unbroken safe rest) (weaker : safe → safe') : l.Unbroken safe' rest := by
  induction rest generalizing l safe safe' with
  | nil => exact weaker unbroken
  | cons event rest ih => exact ih unbroken (Or.imp_right (And.imp_left weaker))

theorem unbrokenSince (before : List Event) (begins : (l.run before).Begins event)
    (later : ((l.run before).step event).Unbroken True rest) : l.Unbroken safe (before ++ event :: rest) := by
  induction before generalizing l safe with
  | nil => exact later.mono fun _ => .inl begins
  | cons first before ih => exact ih begins later

theorem unbrokenScan {call : Nat} {now : String} {move : Flight.Move}
    (later : (l.step (.scan call now move)).Unbroken True rest) : l.Unbroken True (.scan call now move :: rest) :=
  later.mono fun _ => .inr ⟨trivial, id⟩

theorem unbrokenIdle (idle : l.flight.engine.scanning = false) (later : l.watch.Unbroken True rest) :
    l.Unbroken True (.watch :: rest) := by
  refine later.mono fun _ => .inr ⟨trivial, fun loses => ?_⟩
  rw [loses.1] at idle
  contradiction

end

def holding (file : Option (String × Int)) : Disk :=
  { nodes := (⟨["w"]⟩, .dir) ::
      (file.map (fun f => (⟨["w", "a.php"]⟩, .file f.1.toUTF8 f.2))).toList }

section
variable (file : Option (String × Int))

theorem holdingGet (p : AbsPath) : (holding file).get? p =
    if p.names = [] ∨ p = ⟨["w"]⟩ then some .dir
    else if p = ⟨["w", "a.php"]⟩ then file.map (fun f => .file f.1.toUTF8 f.2) else none := by
  unfold Disk.get?
  by_cases top : p.names = []
  · simp [top]
  · by_cases folder : (⟨["w"]⟩ : AbsPath) = p
    · simp [← folder, holding]
    · have other : ¬ p = ⟨["w"]⟩ := Ne.symm folder
      by_cases here : (⟨["w", "a.php"]⟩ : AbsPath) = p
      · cases file <;> simp [← here, holding]
      · cases file <;> simp [holding, top, folder, other, here, Ne.symm here]

theorem holdingFile (p : AbsPath) : (holding file).fileAt? p =
    if p = ⟨["w", "a.php"]⟩ then file.map (fun f => (f.1.toUTF8, f.2)) else none := by
  unfold Disk.fileAt?
  rw [holdingGet]
  by_cases here : p = ⟨["w", "a.php"]⟩
  · subst here
    cases file <;> simp
  · rw [if_neg here, if_neg here]
    split <;> simp_all

theorem holdingHoused : (holding file).Housed := by
  have places : ∀ n ∈ (holding file).nodes, n.1 = ⟨["w"]⟩ ∨ n.1 = ⟨["w", "a.php"]⟩ := by
    cases file <;> simp [holding]
  refine ⟨⟨?_, fun n member => ?_⟩, fun n member => ?_⟩
  · cases file <;> simp [holding]
  · rcases places n member with same | same <;> rw [same] <;> decide +kernel
  · intro q above
    have folder : n.1.parent.names <+: ["w"] := by
      rcases places n member with same | same <;> rw [same] <;> decide +kernel
    have short : q.names = [] ∨ q = ⟨["w"]⟩ := by
      rcases List.prefix_cons_iff.mp (above.trans folder) with top | ⟨names, deep, last⟩
      · exact .inl top
      · rw [List.prefix_nil.mp last] at deep
        exact .inr (congrArg AbsPath.mk deep)
    rw [holdingGet, if_pos short]

theorem holdingStat : statOf? (holding file) ⟨["w", "a.php"]⟩ = file.map (fun f => ⟨f.1.toUTF8.size, f.2⟩) := by
  cases file <;> simp [holding, statOf?, Disk.get?]

theorem holdingRenews {d : Disk} {text : String} {mtime : Int} (files : List (Option (String × Int)))
    (fresh : ∀ file ∈ files, ∀ f ∈ file, f.2 ≠ mtime) :
    d.Renews (files.map holding) (holding (some (text, mtime))) := by
  intro p content mtime' held
  rw [holdingFile] at held
  split at held
  · rename_i here
    cases held
    right
    intro old member had
    obtain ⟨file, known, rfl⟩ := List.mem_map.mp member
    rw [here, holdingStat] at had
    obtain ⟨f, inside, same⟩ := Option.map_eq_some_iff.mp had
    exact fresh file known f inside (congrArg FileStat.mtime same)
  · contradiction

end

def wrote (text : String) (mtime : Int) : Event := .outside (holding (some (text, mtime)))

def scanned (call : Nat) : List Event :=
  [.scan call "t" .next, .scan call "t" (.file 0), .scan call "t" (.file 0), .scan call "t" .next]

def polled : List Event := [.watch, .watch, .watch]

def opened : Loop := start (Engine.rooted [⟨["w"]⟩]) (holding (some ("dd(1);", 1))) "t"

def noticed : List Event :=
  scanned 0 ++ polled ++ [wrote "dd(2);" 2] ++ polled ++ [.expire "t"] ++ (scanned 1).take 3 ++
    [wrote "dd(3);" 3, .scan 1 "t" .next] ++ polled

theorem changesNoticed : Renewed (holding (some ("dd(1);", 1))) [holding (some ("dd(1);", 1))]
      (noticed ++ .expire "t" :: (scanned 2 ++ polled)) ∧
    opened.Unbroken True (noticed ++ .expire "t" :: (scanned 2 ++ polled)) ∧
    (opened.run (noticed ++ .expire "t" :: (scanned 2 ++ polled))).Quiet ∧
    (opened.run (noticed ++ .expire "t" :: (scanned 2 ++ polled))).Current (Engine.rooted [⟨["w"]⟩]) "u" := by
  have renewed : Renewed (holding (some ("dd(1);", 1))) [holding (some ("dd(1);", 1))]
      (noticed ++ .expire "t" :: (scanned 2 ++ polled)) := by
    exact ⟨holdingHoused _, holdingRenews [some ("dd(1);", 1)] (by decide), holdingHoused _,
      holdingRenews [some ("dd(2);", 2), some ("dd(1);", 1)] (by decide), trivial⟩
  have unbroken : opened.Unbroken True (noticed ++ .expire "t" :: (scanned 2 ++ polled)) := by
    have waits : (opened.run noticed).pending = true := by decide +kernel
    refine unbrokenSince noticed waits ?_
    refine unbrokenScan (unbrokenScan (unbrokenScan (unbrokenScan ?_)))
    exact unbrokenIdle (by decide +kernel) (unbrokenIdle (by decide +kernel) (unbrokenIdle (by decide +kernel) trivial))
  have quiet : (opened.run (noticed ++ .expire "t" :: (scanned 2 ++ polled))).Quiet :=
    ⟨by decide +kernel, by decide +kernel, [("/w/a.php", 6, 3)], by decide +kernel, by decide +kernel⟩
  exact ⟨renewed, unbroken, quiet, quietCurrent "t" "u" (by decide) (holdingHoused _) renewed unbroken quiet⟩

def Altered (d : Disk) : List Event → Prop
  | [] => True
  | .outside d' :: rest =>
      d'.Housed ∧ (∀ p, d'.fileAt? p ≠ d.fileAt? p → d'.fileStat? p ≠ d.fileStat? p) ∧ Altered d' rest
  | _ :: rest => Altered d rest

theorem holdingAlters {file file' : Option (String × Int)}
    (differs : file'.map (fun f => (f.1.toUTF8.size, f.2)) ≠ file.map (fun f => (f.1.toUTF8.size, f.2)))
    (p : AbsPath) (changed : (holding file').fileAt? p ≠ (holding file).fileAt? p) :
    (holding file').fileStat? p ≠ (holding file).fileStat? p := by
  by_cases here : p = ⟨["w", "a.php"]⟩
  · rw [Disk.fileStatAt, Disk.fileStatAt, holdingFile, holdingFile, if_pos here, if_pos here]
    intro same
    refine differs ?_
    have parts := congrArg (Option.map (fun stat : FileStat => (stat.size, stat.mtime))) same
    simpa [Function.comp_def] using parts
  · simp [holdingFile, here] at changed

def unbased : List Event := scanned 0 ++ [wrote "dd(2);" 2] ++ polled

def vanished : List Event :=
  scanned 0 ++ polled ++ [.outside (holding none), .watch, .watch, wrote "dd(2);" 2, .expire "t"] ++ scanned 1 ++
    [.outside (holding none)]

/-- A poll finds a difference while a scan runs that has read the file before. -/
def dropped : List Event :=
  scanned 0 ++ polled ++ [wrote "dd(2);" 2] ++ polled ++ [.expire "t"] ++ (scanned 1).take 3 ++ [wrote "dd(3);" 3] ++
    polled ++ [.scan 1 "t" .next]

/-- The file is scanned between two changes that leave it with the size and time it had. -/
def returned : List Event :=
  scanned 0 ++ polled ++ [wrote "dd(2);" 2] ++ polled ++ [.expire "t", wrote "dd(3);" 3] ++ scanned 1 ++
    [wrote "dd(4);" 2]

/-- Each change alters a size or time, and still the loop becomes quiet with a result that is not current. -/
def Missed (events : List Event) : Prop :=
  Altered (holding (some ("dd(1);", 1))) events ∧ (opened.run events).Quiet ∧
    ¬ (opened.run events).Current (Engine.rooted [⟨["w"]⟩]) "u"

-- One evaluation of the run tells how it ends.
theorem missedRun {events : List Event} (seen : Snapshot) (altered : Altered (holding (some ("dd(1);", 1))) events)
    (ended : (opened.run events).flight.engine.scanning = false ∧ (opened.run events).pending = false ∧
      (opened.run events).snapshot = some seen ∧ (opened.run events).look = .ok seen ∧
      (opened.run events).flight.engine.last.map ScanResult.findings ≠
        (Engine.scanWorkspace { settings := Engine.rooted [⟨["w"]⟩] } (opened.run events).source "u").1.toOption.map
          ScanResult.findings) : Missed events := by
  obtain ⟨idle, unasked, stored, looked, differs⟩ := ended
  refine ⟨altered, ⟨idle, unasked, seen, stored, looked⟩, ?_⟩
  rintro ⟨last, fresh, known, scanned, same⟩
  rw [known, scanned] at differs
  exact differs (congrArg some same)

theorem changesLost : Missed unbased ∧ Missed vanished ∧ Missed dropped ∧ Missed returned := by
  refine ⟨missedRun [("/w/a.php", 6, 2)] ?_ (by decide +kernel), missedRun [] ?_ (by decide +kernel),
    missedRun [("/w/a.php", 6, 3)] ?_ (by decide +kernel), missedRun [("/w/a.php", 6, 2)] ?_ (by decide +kernel)⟩
  · exact ⟨holdingHoused _, holdingAlters (by decide), trivial⟩
  · exact ⟨holdingHoused _, holdingAlters (by decide), holdingHoused _, holdingAlters (by decide), holdingHoused _,
      holdingAlters (by decide), trivial⟩
  · exact ⟨holdingHoused _, holdingAlters (by decide), holdingHoused _, holdingAlters (by decide), trivial⟩
  · exact ⟨holdingHoused _, holdingAlters (by decide), holdingHoused _, holdingAlters (by decide), holdingHoused _,
      holdingAlters (by decide), trivial⟩

end Loop
end Watch
end DebugSweep
