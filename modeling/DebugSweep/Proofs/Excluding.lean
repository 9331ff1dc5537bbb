import DebugSweep.Proofs.Covering
import DebugSweep.Proofs.Upkeep
import DebugSweep.Proofs.Ways
import Mathlib.Logic.Relation

/-! Exclude patterns of users over whole runs of a server. Main statement: a file that a user excluded
is told of by no later scan, whatever is requested meanwhile, whatever others do to the files, and over
restarts, until the same pattern is taken back. A pattern that was known before must be in its file
already to last over a restart, since it is not saved again, and it must have no backslash. -/
namespace DebugSweep

theorem Settings.patternRuled (settings : Settings) {patterns : List String} {pattern : String}
    (known : pattern ∈ patterns) : pattern ∈ (settings.withExcludes patterns).scan.excludeGlobs :=
  Settings.addNewMember.mpr (.inr known)

namespace Disk
variable {d : Disk} {p : AbsPath}

theorem topDirectory (d : Disk) : d.Directory ⟨[]⟩ := by
  intro q along
  simp [get?, List.prefix_nil.mp along]

theorem Housed.directory (housed : d.Housed) (there : d.get? p = some .dir) : d.Directory p := by
  by_cases top : p.names = []
  · obtain rfl : p = ⟨[]⟩ := congrArg AbsPath.mk top
    exact topDirectory d
  · intro q along
    by_cases here : q = p
    · rw [here]
      exact there
    · apply (housed.node there top).2 q
      have shorter : q.names.length ≠ p.names.length := fun same =>
        here (congrArg AbsPath.mk (along.eq_of_length same))
      have sizes := along.length_le
      refine List.prefix_of_prefix_length_le along (List.dropLast_prefix p.names) ?_
      rw [AbsPath.parent, List.length_dropLast]
      omega

end Disk

namespace Site

def directoryKind? : Value → Option Bool
  | .text "dir" => some true
  | .text "file" => some false
  | _ => none

def exclusion? (s : Site) (args : Arguments) : Option (AbsPath × Bool × Bool) := do
  let path ← (Value.fieldIn? "path" args).bind Value.text?
  let isDir ← directoryKind? (argumentOr args "kind" (.text "dir"))
  let add ← (argumentOr args "add" (.bool true)).bool?
  let place ← (Path.inWorkspace s.disk.here s.server.settings.scan.roots path).toOption
  return (place, isDir, add)

section
variable {settings : Settings} {s s' : Site} {args : Arguments} {place : AbsPath} {isDir add : Bool}
  {pattern : String}

theorem exclusionAsked (named : s.exclusion? args = some (place, isDir, add))
    (made : Path.excludePattern s.server.settings.scan.roots place isDir = some pattern) :
    s.excludeRequest args = .ok (pattern, add) := by
  obtain ⟨path, given, rest⟩ := Option.bind_eq_some_iff.mp named
  obtain ⟨kind, kinded, rest⟩ := Option.bind_eq_some_iff.mp rest
  obtain ⟨flag, flagged, rest⟩ := Option.bind_eq_some_iff.mp rest
  obtain ⟨found, resolved, last⟩ := Option.bind_eq_some_iff.mp rest
  cases last
  obtain ⟨value, field, text⟩ := Option.bind_eq_some_iff.mp given
  obtain rfl : value = .text path := by
    cases value <;> simp_all [Value.text?]
  have flags : argumentOr args "add" (.bool true) = .bool add := by
    generalize argumentOr args "add" (.bool true) = value at flagged
    cases value <;> simp_all [Value.bool?]
  have leads : Path.inWorkspace s.disk.here s.server.settings.scan.roots path = .ok place := by
    cases reached : Path.inWorkspace s.disk.here s.server.settings.scan.roots path with
    | error fault =>
      rw [reached] at resolved
      contradiction
    | ok q =>
      rw [reached] at resolved
      cases resolved
      rfl
  unfold excludeRequest
  rw [field]
  dsimp only
  generalize argumentOr args "kind" (.text "dir") = value at kinded
  unfold directoryKind? at kinded
  split at kinded
  · cases kinded
    simp only [flags, leads, made, bind, Except.bind, pure, Except.pure]
  · cases kinded
    simp only [flags, leads, made, bind, Except.bind, pure, Except.pure]
  · contradiction

structure Excluding (settings : Settings) (pattern : String) (lasting : Prop) (s : Site) : Prop
    extends s.Orderly settings where
  known : pattern ∈ s.server.excludes.patterns
  rule : pattern ∈ s.server.engine.settings.scan.excludeGlobs
  kept : lasting → settings.Stored pattern s.disk

variable {lasting : Prop}

theorem Excluding.calm (excluding : s.Excluding settings pattern lasting) (next : s'.Orderly settings)
    (calm : Calm s s') : s'.Excluding settings pattern lasting := by
  refine ⟨next, ?_, ?_, fun lasts => (excluding.kept lasts).same ?_⟩
  · rw [calm.excludes]
    exact excluding.known
  · rw [calm.rules]
    exact excluding.rule
  · rw [← excluding.excludes]
    exact calm.file

theorem Excluding.revised {other : String} (excluding : s.Excluding settings pattern lasting)
    (revised : Revised settings other add s s') (unlike : (pattern, false) ≠ (other, add)) :
    s'.Excluding settings pattern lasting := by
  have known := revised.stays pattern excluding.known unlike
  refine ⟨revised.orderly, known, ?_, fun lasts => ?_⟩
  · rcases revised.rules with same | renewed
    · rw [same]
      exact excluding.rule
    · rw [renewed]
      exact settings.patternRuled known
  · rcases revised.file with same | loaded
    · exact (excluding.kept lasts).same same
    · exact ⟨_, loaded, known⟩

theorem Orderly.granted {answer : Value} (orderly : s.Orderly settings) (now : String)
    (asked : s.excludeRequest args = .ok (pattern, true)) (answered : (s.excludeTool now args).1 = .ok answer)
    (saved : lasting → pattern ∈ s.server.excludes.patterns → settings.Stored pattern s.disk) :
    (s.excludeTool now args).2.Excluding settings pattern lasting := by
  obtain ⟨revised, stored⟩ := orderly.revised pattern true
  rcases excludeToolCases now asked with ⟨fault, failed⟩ | ⟨changed, updated, done⟩
  · rw [failed] at answered
    contradiction
  · rw [done]
    have known := revised.added rfl
    obtain ⟨next, calm⟩ := revised.orderly.ruled.scanWorkspace now
    refine Excluding.calm ?_ next calm
    exact ⟨revised.orderly.ruled, known, Settings.patternRuled _ known,
      fun lasts => stored changed updated rfl (saved lasts)⟩

/-- A request that takes the pattern back, whether it succeeds or not. -/
def TakesBack (pattern : String) (s : Site) (payload : Value) : Prop :=
  ∃ args, s.called? payload = some (.exclude, args) ∧ s.excludeRequest args = .ok (pattern, false)

/-- What happens to a site: a request is answered, a line that is none is refused, others change files but
the one of the patterns, or the server ends and is started again. -/
inductive Step (restarts : Prop) (allowed : Site → Value → Prop) (s : Site) : Site → Prop
  | request (now : String) {payload : Value} (free : allowed s payload) :
      Step restarts allowed s (s.handle now payload).2
  | noise (now : String) {line : List Char} (unread : ∀ payload, Json.read (String.ofList line) ≠ .ok payload) :
      Step restarts allowed s (s.handleLine now line).2
  | edit {source : Source} (proper : ∀ n ∈ source.disk.nodes, n.1.Proper)
      (keeps : Disk.Keeps s.server.excludes.path s.disk source.disk) : Step restarts allowed s ⟨s.server, source⟩
  | restart {server : Server} {d : Disk} (faults : Faults) (free : restarts)
      (created : Server.create s.server.settings s.disk = .ok (server, d)) :
      Step restarts allowed s ⟨server, { disk := d, faults := faults }⟩

theorem createdOrderly {d d' : Disk} {server : Server} (created : Server.create settings d = .ok (server, d'))
    (grounded : d.Grounded []) (data : settings.dataDir.Proper)
    (above : d.get? settings.dataDir = some .dir → d.Directory settings.dataDir) (faults : Faults) :
    Orderly settings ⟨server, { disk := d', faults := faults }⟩ ∧
      Store.load d settings.patternFile "glob patterns" = .ok server.excludes.patterns ∧
      server.engine.settings = settings.withExcludes server.excludes.patterns ∧
      d'.get? settings.patternFile = d.get? settings.patternFile := by
  obtain ⟨excludes, excluded, rest⟩ := bindOkIff.mp created
  obtain ⟨bookmarks, marked, rest⟩ := bindOkIff.mp rest
  obtain ⟨d₁, prepared, last⟩ := bindOkIff.mp rest
  obtain ⟨patterns, loaded, kept⟩ := bindOkIff.mp excluded
  obtain ⟨ids, -, stored⟩ := bindOkIff.mp marked
  cases last
  cases kept
  cases stored
  have made : d.makeDirs settings.dataDir = .ok d' :=
    (settings.dataDir.childOf Journal.fileName).1 ▸ mapErrorOk prepared
  obtain ⟨directory, beside⟩ := Disk.makeDirsDirectory above made
  have same : d'.get? settings.patternFile = d.get? settings.patternFile := beside Excludes.fileName
  have loaded' := (Store.loadSame "glob patterns" same).trans loaded
  have plain := grounded.makeDirs data made
  have ground : d'.Grounded settings.ground := by
    refine ⟨plain.home, plain.nodes, ?_⟩
    simp only [Settings.ground, List.forall_mem_cons]
    exact ⟨directory, Disk.topDirectory d', by simp⟩
  refine ⟨⟨rfl, ⟨patterns, rfl⟩, rfl, rfl, rfl, data, ground, ⟨patterns, loaded'⟩, ?_⟩, loaded, rfl, same⟩
  exact ⟨foreignYielded ground loaded', by simp, by simp⟩

theorem Orderly.restarted {d : Disk} {server : Server} (orderly : s.Orderly settings)
    (created : Server.create s.server.settings s.disk = .ok (server, d)) (faults : Faults) :
    Orderly settings ⟨server, { disk := d, faults := faults }⟩ ∧
      Store.load s.disk settings.patternFile "glob patterns" = .ok server.excludes.patterns ∧
      server.engine.settings = settings.withExcludes server.excludes.patterns ∧
      d.get? settings.patternFile = s.disk.get? settings.patternFile := by
  rw [orderly.config] at created
  exact createdOrderly created ⟨orderly.grounded.home, orderly.grounded.nodes, by simp⟩ orderly.data
    (fun _ => orderly.directory) faults

theorem Orderly.edited {source : Source} (orderly : s.Orderly settings)
    (proper : ∀ n ∈ source.disk.nodes, n.1.Proper)
    (keeps : Disk.Keeps s.server.excludes.path s.disk source.disk) :
    Orderly settings ⟨s.server, source⟩ ∧ Calm s ⟨s.server, source⟩ := by
  have same := keeps.same _ (List.prefix_refl _)
  rw [orderly.excludes] at keeps
  have ground : source.disk.Grounded settings.ground := by
    refine ⟨keeps.here ▸ orderly.grounded.home, proper, ?_⟩
    simp only [Settings.ground, List.forall_mem_cons]
    refine ⟨fun q along => ?_, Disk.topDirectory _, by simp⟩
    rw [keeps.same q (along.trans (List.prefix_append _ _))]
    exact orderly.directory q along
  obtain ⟨patterns, loaded⟩ := orderly.stored
  have loaded' := (Store.loadSame "glob patterns" (keeps.same _ (List.prefix_refl _))).trans loaded
  refine ⟨{ orderly with grounded := ground, stored := ⟨patterns, loaded'⟩, engine := ?_ }, rfl, rfl, same⟩
  exact ⟨foreignYielded ground loaded', orderly.engine.cached, orderly.engine.last⟩

variable {restarts : Prop} {allowed : Site → Value → Prop}

theorem Orderly.step (orderly : s.Orderly settings) (step : Step restarts allowed s s') : s'.Orderly settings := by
  cases step with
  | @request now payload free =>
    rcases orderly.handled now payload with ⟨next, -⟩ | ⟨args, pattern, add, -, -, revised⟩
    · exact next
    · exact revised.orderly
  | noise now unread => exact (orderly.unread now unread).1
  | edit proper keeps => exact (orderly.edited proper keeps).1
  | restart faults free created => exact (orderly.restarted created faults).1

theorem Excluding.step (excluding : s.Excluding settings pattern lasting)
    (step : Step lasting (fun s payload => ¬ TakesBack pattern s payload) s s') :
    s'.Excluding settings pattern lasting := by
  cases step with
  | @request now payload free =>
    rcases excluding.handled now payload with ⟨next, calm⟩ | ⟨args, other, add, called, asked, revised⟩
    · exact excluding.calm next calm
    · refine excluding.revised revised ?_
      rintro ⟨⟩
      exact free ⟨args, called, asked⟩
  | noise now unread =>
    obtain ⟨next, calm⟩ := excluding.unread now unread
    exact excluding.calm next calm
  | edit proper keeps =>
    obtain ⟨next, calm⟩ := excluding.edited proper keeps
    exact excluding.calm next calm
  | restart faults lasts created =>
    -- What was kept in the file is what the new server starts from.
    obtain ⟨next, loaded, rules, same⟩ := excluding.restarted created faults
    obtain ⟨patterns, kept, member⟩ := excluding.kept lasts
    obtain rfl : patterns = _ := Except.ok.inj (kept.symm.trans loaded)
    refine ⟨next, member, ?_, fun _ => (excluding.kept lasts).same same⟩
    exact rules.symm ▸ settings.patternRuled member

open Relation in
theorem Orderly.run (orderly : s.Orderly settings) (run : ReflTransGen (Step restarts allowed) s s') :
    s'.Orderly settings := by
  induction run with
  | refl => exact orderly
  | tail _ step ih => exact ih.step step

open Relation in
theorem Excluding.run (excluding : s.Excluding settings pattern lasting)
    (run : ReflTransGen (Step lasting (fun s payload => ¬ TakesBack pattern s payload)) s s') :
    s'.Excluding settings pattern lasting := by
  induction run with
  | refl => exact excluding
  | tail _ step ih => exact ih.step step

end
end Site

def Value.statementFiles (v : Value) : List String :=
  match v.field? "statements" with
  | some (.list statements) => statements.filterMap (fun statement => (statement.field? "file_path").bind text?)
  | _ => []

theorem ScanResult.statementFiles (r : ScanResult) : r.toValue.statementFiles = r.findings.map Finding.filePath := by
  have files : ∀ findings : List Finding, (findings.map Finding.toValue).filterMap
      (fun statement => (statement.field? "file_path").bind Value.text?) = findings.map Finding.filePath := by
    intro findings
    rw [List.filterMap_map]
    exact List.filterMap_eq_map_iff_forall_eq_some.mpr fun f member => rfl
  exact files r.findings

theorem ScanResult.hideSubset {r : ScanResult} {kinds : List String} {f : Finding}
    (member : f ∈ (r.hide kinds).findings) : f ∈ r.findings := by
  unfold hide at member
  split at member
  · exact member
  · exact (List.mem_filter.mp member).1

theorem Response.faultSilent (id : String) (fault : Fault) : (ofFault id fault).result.statementFiles = [] := by
  unfold ofFault
  split
  · rfl
  · rfl
  · split <;> rfl

namespace Site

def reported (s : Site) (now : String) (payload : Value) : List String :=
  match s.called? payload, (s.handle now payload).1 with
  | some (.scanWorkspace, _), .ok response => response.result.statementFiles
  | some (.scanFiles, _), .ok response => response.result.statementFiles
  | _, _ => []

section
variable {settings : Settings} {s : Site} {now path : String} {payload : Value} {tool : Tool} {args : Arguments}

theorem respondSame {tool : String} {r response : Response} (answered : (s.respond now tool args r).1 = .ok response) :
    response = r := by
  unfold respond at answered
  split at answered
  · exact (Except.ok.inj answered).symm
  · contradiction

theorem limitTells {r : Response} {bytes : Nat} (told : path ∈ (r.limit bytes).result.statementFiles) :
    path ∈ r.result.statementFiles := by
  unfold Response.limit at told
  split at told
  · exact told
  · exact absurd told List.not_mem_nil

theorem reportedAnswer {response : Response} (called : s.called? payload = some (tool, args))
    (handled : (s.handle now payload).1 = .ok response) (told : path ∈ response.result.statementFiles) :
    ∃ answer, ((s.parse payload).2.call now args tool).1 = .ok answer ∧ path ∈ answer.statementFiles := by
  unfold called? at called
  unfold handle at handled
  split at called
  · contradiction
  · rename_i request t parsed
    simp only [parsed] at handled ⊢
    split at called
    · contradiction
    · rename_i name args' aim
      rw [aim] at handled
      obtain ⟨found, known, same⟩ := Option.map_eq_some_iff.mp called
      cases same
      have sent := respondSame handled
      unfold dispatch Registry.find at sent
      rw [known] at sent
      dsimp only at sent
      split at sent
      · rw [sent, Response.faultSilent] at told
        exact absurd told List.not_mem_nil
      · rename_i answer t' outcome
        rw [sent] at told
        exact ⟨answer, by rw [outcome], limitTells told⟩

theorem scanTold {result : Except Fault ScanResult} {hidden : List String} {answer : Value}
    (answered : result.map (fun r => (r.hide hidden).toValue) = .ok answer) (told : path ∈ answer.statementFiles) :
    ∃ r, result = .ok r ∧ ∃ f ∈ r.findings, f.filePath = path := by
  cases result with
  | error fault => contradiction
  | ok r =>
    cases answered
    rw [ScanResult.statementFiles] at told
    obtain ⟨f, member, same⟩ := List.mem_map.mp told
    exact ⟨r, rfl, f, ScanResult.hideSubset member, same⟩

theorem Orderly.rootTexts (orderly : s.Orderly settings) :
    s.server.engine.settings.rootTexts = settings.scan.roots.map AbsPath.text := by
  obtain ⟨extra, rules⟩ := orderly.rules
  rw [rules]
  rfl

theorem Orderly.reportedFree (orderly : s.Orderly settings) (told : path ∈ s.reported now payload) :
    ∃ here, Glob.excluded here (Glob.rules s.server.engine.settings.scan.excludeGlobs)
      (settings.scan.roots.map AbsPath.text) path false = false := by
  obtain ⟨ready, calm⟩ := orderly.parse payload
  rw [← calm.rules, ← ready.rootTexts]
  unfold reported at told
  split at told
  · rename_i args response called handled
    obtain ⟨answer, answered, files⟩ := reportedAnswer called handled told
    unfold Site.call scanWorkspaceTool at answered
    dsimp only at answered
    split at answered
    · contradiction
    · obtain ⟨r, scanned, f, member, rfl⟩ := scanTold answered files
      obtain ⟨p, taken, same, -⟩ := (ready.engine.scanWorkspace now).2 r scanned f member
      rw [Selector.takes, Bool.and_eq_true, Bool.not_eq_true'] at taken
      exact ⟨⟨[]⟩, same ▸ taken.2⟩
  · rename_i args response called handled
    obtain ⟨answer, answered, files⟩ := reportedAnswer called handled told
    unfold Site.call scanFilesTool at answered
    dsimp only at answered
    split at answered
    · contradiction
    · rename_i hidden paths requested
      obtain ⟨r, scanned, f, member, rfl⟩ := scanTold answered files
      obtain ⟨p, taken, same, -⟩ := (ready.engine.scanFiles now paths).2 r scanned f member
      rw [Engine.eligible, Bool.and_eq_true, Bool.not_eq_true'] at taken
      exact ⟨_, same ▸ taken.2⟩
  · exact absurd told List.not_mem_nil

theorem Excluding.unreported {pattern : String} {lasting : Prop} {place file : AbsPath} {isDir : Bool}
    (excluding : s.Excluding settings pattern lasting) (roots : ∀ root ∈ settings.scan.roots, root.Proper)
    (made : Path.excludePattern settings.scan.roots place isDir = some pattern)
    (plain : '\\' ∉ pattern.toList) (visible : Text.allBlank pattern.toList = false)
    (covered : Path.Covered place isDir file) (proper : file.Proper) (now : String) (payload : Value) :
    file.text ∉ s.reported now payload := by
  intro told
  obtain ⟨here, free⟩ := excluding.reportedFree told
  rw [Glob.placeExcluded made plain visible covered proper roots excluding.rule] at free
  contradiction

open Relation in
theorem excludedForGood {d d' : Disk} {server : Server} {faults : Faults} {s t : Site} {place file : AbsPath}
    {isDir : Bool} {pattern : String} {answer : Value} {lasting : Prop} (housed : d.Housed) (home : d.here.Proper)
    (data : settings.dataDir.Proper) (roots : ∀ root ∈ settings.scan.roots, root.Proper)
    (created : Server.create settings d = .ok (server, d'))
    (before : ReflTransGen (Step True (fun _ _ => True)) ⟨server, { disk := d', faults := faults }⟩ s)
    (called : s.called? payload = some (.exclude, args)) (named : s.exclusion? args = some (place, isDir, true))
    (made : Path.excludePattern settings.scan.roots place isDir = some pattern)
    (answered : ((s.parse payload).2.call now args .exclude).1 = .ok answer)
    (plain : '\\' ∉ pattern.toList) (visible : Text.allBlank pattern.toList = false)
    (saved : lasting → pattern ∈ s.server.excludes.patterns → settings.Stored pattern s.disk)
    (after : ReflTransGen (Step lasting (fun s payload => ¬ TakesBack pattern s payload)) (s.handle now payload).2 t)
    (covered : Path.Covered place isDir file) (proper : file.Proper) (later : String) (query : Value) :
    file.text ∉ t.reported later query := by
  have start := createdOrderly created ⟨home, housed.proper, by simp⟩ data housed.directory faults
  have orderly := start.1.run before
  obtain ⟨ready, calm⟩ := orderly.parse payload
  have asked : (s.parse payload).2.excludeRequest args = .ok (pattern, true) :=
    (excludeRequestParsed s payload args).trans (exclusionAsked named (orderly.config ▸ made))
  have granted := ready.granted now asked answered (fun lasts known =>
    (saved lasts (calm.excludes ▸ known)).same (orderly.excludes ▸ calm.file))
  rcases handleNoted s now payload with ⟨uncalled, -⟩ | ⟨tool, args', called', noted⟩
  · rw [uncalled] at called
    contradiction
  · obtain ⟨⟩ := called.symm.trans called'
    obtain ⟨next, quiet⟩ := granted.noted noted
    exact ((granted.calm next quiet).run after).unreported roots made plain visible covered proper later query

end

open Relation

def reopened (s : Site) : Site :=
  match Server.create s.server.settings s.disk with
  | .ok (server, d) => ⟨server, { disk := d }⟩
  | .error _ => s

theorem reopenedStep {allowed : Site → Value → Prop} {s : Site}
    (works : (Server.create s.server.settings s.disk).isOk = true) : Step True allowed s s.reopened := by
  unfold reopened
  split
  · rename_i server d created
    exact .restart {} trivial created
  · rename_i fault failed
    rw [failed] at works
    contradiction

theorem answerOfOk {ε α : Type} {result : Except ε α} (works : result.isOk = true) : ∃ answer, result = .ok answer := by
  cases result with
  | error fault => contradiction
  | ok answer => exact ⟨answer, rfl⟩

def excludeAt (path : String) : Value :=
  .record [("method", .text "debug.exclude"), ("params", .record [("path", .text path)])]

def scanAll : Value := .record [("method", .text "debug.scan_workspace")]

def serving (settings : Settings) (nodes : List (AbsPath × Node)) : Site :=
  { server := { oneDumpServer with settings, engine := { settings } }
    source := { disk := { nodes := (⟨["w"]⟩, .dir) :: (⟨["data"]⟩, .dir) :: nodes, here := ⟨["w"]⟩ } } }

def markedNames : Site :=
  serving oneDumpSettings
    [(⟨["w", "x*[1]?"]⟩, .dir), (⟨["w", "x*[1]?", "a.php"]⟩, .file "dd(1);".toUTF8 1)]

theorem markedNamesHoused : markedNames.disk.Housed :=
  ⟨⟨by decide, by decide⟩, by decide +kernel⟩

def statusAsked : Value := .record [("method", .text "debug.status")]

theorem statusHarmless (s : Site) (pattern : String) : ¬ TakesBack pattern s statusAsked := by
  rintro ⟨args, called, -⟩
  have other : s.called? statusAsked = some (.status, []) := rfl
  rw [other] at called
  cases called

theorem markedNamesExcluded :
    (markedNames.call "t" [] .scanWorkspace).1.map Value.statementFiles = .ok ["/w/x*[1]?/a.php"] ∧
    "/w/x*[1]?/a.php" ∉
      ((markedNames.handle "t" (excludeAt "x*[1]?")).2.handle "t" statusAsked).2.reopened.reported "t" scanAll := by
  refine ⟨by decide +kernel, ?_⟩
  have created : Server.create oneDumpSettings markedNames.disk = .ok (oneDumpServer, markedNames.disk) := rfl
  have called : markedNames.called? (excludeAt "x*[1]?") = some (.exclude, [("path", .text "x*[1]?")]) := rfl
  have named : markedNames.exclusion? [("path", .text "x*[1]?")] = some (⟨["w", "x*[1]?"]⟩, true, true) := by
    decide +kernel
  have made : Path.excludePattern oneDumpSettings.scan.roots ⟨["w", "x*[1]?"]⟩ true = some "x*[1]?/**" := by
    decide +kernel
  obtain ⟨answer, answered⟩ : ∃ answer, ((markedNames.parse (excludeAt "x*[1]?")).2.call "t"
      [("path", .text "x*[1]?")] .exclude).1 = .ok answer := answerOfOk (by decide +kernel)
  have fresh : True → "x*[1]?/**" ∈ markedNames.server.excludes.patterns →
      oneDumpSettings.Stored "x*[1]?/**" markedNames.disk :=
    fun _ known => absurd known List.not_mem_nil
  have after : ReflTransGen (Step True (fun s payload => ¬ TakesBack "x*[1]?/**" s payload))
      (markedNames.handle "t" (excludeAt "x*[1]?")).2
      ((markedNames.handle "t" (excludeAt "x*[1]?")).2.handle "t" statusAsked).2.reopened :=
    (ReflTransGen.single (.request "t" (statusHarmless _ _))).tail (reopenedStep (by decide +kernel))
  have covered : Path.Covered ⟨["w", "x*[1]?"]⟩ true ⟨["w", "x*[1]?", "a.php"]⟩ :=
    ⟨["a.php"], by decide, rfl, by decide⟩
  exact excludedForGood markedNamesHoused (by decide) (by decide) (by decide) created .refl called named made answered
    (by decide) (by decide) fresh after covered (by decide) "t" scanAll

def failingSave : Site :=
  serving oneDumpSettings
    [(⟨["w", "d"]⟩, .dir), (⟨["w", "d", "a.php"]⟩, .file "dd(1);".toUTF8 1),
      (⟨["data", "excludes.json.tmp"]⟩, .dir)]

-- The first root has a backslash in its name and lies below the second.
def strangeRoot : Site :=
  let folder : AbsPath := ⟨["w", "a\\b"]⟩
  let scan := { oneDumpSettings.scan with roots := [folder, ⟨["w"]⟩], skipDirNames := ["a\\b"] }
  serving { oneDumpSettings with scan } [(folder, .dir), (folder.child "x.php", .file "dd(1);".toUTF8 1)]

-- A save that failed is not tried again, so a restart forgets the pattern; and a pattern with a
-- backslash does not cover the place that it was made from.
theorem exclusionForgotten :
    ((failingSave.handle "t" (excludeAt "d")).2.call "t" [("path", .text "d")] .exclude).1.isOk = true ∧
    (((failingSave.handle "t" (excludeAt "d")).2.handle "t" (excludeAt "d")).2.reopened.call "t" []
      .scanWorkspace).1.map Value.statementFiles = .ok ["/w/d/a.php"] ∧
    (strangeRoot.call "t" [("path", .text ".")] .exclude).1.isOk = true ∧
    ((strangeRoot.handle "t" (excludeAt ".")).2.call "t" [] .scanWorkspace).1.map Value.statementFiles =
      .ok ["/w/a\\b/x.php"] := by
  refine ⟨?_, ?_, ?_, ?_⟩
  · decide +kernel
  · decide +kernel
  · decide +kernel
  · decide +kernel

end Site
end DebugSweep
