import DebugSweep.Proofs.Provenance
import DebugSweep.Proofs.Saving

/-! The server's own files under requests. Main statement: a request either leaves the patterns of users,
the rules of scans and the file that keeps the patterns as they are, even if it clears, or it adds or
removes one pattern, and what is then in the file and in the rules is what was there or what is known. -/
namespace DebugSweep

namespace Settings

def patternFile (s : Settings) : AbsPath := s.dataDir.child Excludes.fileName

def ground (s : Settings) : List AbsPath := [s.dataDir, ⟨[]⟩]

theorem addNewMember {known items : List String} {item : String} :
    item ∈ addNew known items ↔ item ∈ known ∨ item ∈ items := by
  unfold addNew
  induction items generalizing known with
  | nil => simp
  | cons next items ih =>
    rw [List.foldl_cons, ih, List.mem_cons]
    split
    · rename_i old
      have listed : next ∈ known := List.contains_iff_mem.mp old
      constructor
      · rintro (inside | later)
        · exact .inl inside
        · exact .inr (.inr later)
      · rintro (inside | rfl | later)
        · exact .inl inside
        · exact .inl listed
        · exact .inr later
    · simp [or_assoc]

def Stored (settings : Settings) (pattern : String) (d : Disk) : Prop :=
  ∃ patterns, Store.load d settings.patternFile "glob patterns" = .ok patterns ∧ pattern ∈ patterns

theorem Stored.same {settings : Settings} {pattern : String} {d d' : Disk} (stored : settings.Stored pattern d)
    (same : d'.get? settings.patternFile = d.get? settings.patternFile) : settings.Stored pattern d' := by
  obtain ⟨patterns, loaded, member⟩ := stored
  exact ⟨patterns, (Store.loadSame _ same).trans loaded, member⟩

end Settings

def Finding.Foreign (settings : Settings) (path : String) (f : Finding) : Prop :=
  f.filePath = path ∧ ∃ p : AbsPath, path = p.text ∧ p.Inside settings.ground ∧ p ≠ settings.patternFile

theorem foreignYielded {settings : Settings} {d : Disk} {patterns : List String}
    (grounded : d.Grounded settings.ground)
    (loaded : Store.load d settings.patternFile "glob patterns" = .ok patterns) :
    Engine.Yields (Finding.Foreign settings) d := by
  intro p content held relative f member
  unfold Engine.contentOf? at held
  split at held
  · rename_i content' mtime file
    cases held
    have deep : p.names ≠ [] := by
      intro top
      simp [Disk.get?, top] at file
    refine ⟨Clear.textFile f member, p, rfl, ⟨grounded.found file, ⟨[]⟩, ?_, List.nil_prefix, ?_⟩, ?_⟩
    · simp [Settings.ground]
    · rintro rfl
      exact deep rfl
    · rintro rfl
      rw [Store.loadedQuiet loaded file] at member
      contradiction
  · contradiction

namespace Clear

theorem clearEachKeeps {d : Disk} {p : AbsPath} {findings : List Finding} {paths : List String}
    (above : d.Sheltered p) (drafts : ∀ q : AbsPath, q.draft ≠ p)
    (others : ∀ path ∈ paths, ∀ here, (Written.ofText path).placeFrom here ≠ p) (r : Report) :
    Disk.Keeps p d (clearEach .plain findings r d paths).2 := by
  induction paths generalizing r d with
  | nil => exact Disk.Keeps.refl p d
  | cons path rest ih =>
    obtain ⟨here, later⟩ := List.forall_mem_cons.mp others
    unfold clearEach
    split
    · exact Disk.Keeps.refl p d
    · have first := clearFileKeeps above drafts (here d.here) r
        (findings.filter (fun f => f.filePath == path))
      exact first.trans (ih (first.sheltered above) later _)

end Clear

namespace Site

structure Orderly (settings : Settings) (s : Site) : Prop where
  config : s.server.settings = settings
  rules : ∃ extra, s.server.engine.settings = settings.withExcludes extra
  journal : s.server.journal = settings.dataDir.child Journal.fileName
  bookmarks : s.server.bookmarks.path = settings.dataDir.child Bookmarks.fileName
  excludes : s.server.excludes.path = settings.patternFile
  data : settings.dataDir.Proper
  grounded : s.disk.Grounded settings.ground
  stored : ∃ patterns, Store.load s.disk settings.patternFile "glob patterns" = .ok patterns
  engine : s.server.engine.Traced (Finding.Foreign settings) s.source

structure Calm (s s' : Site) : Prop where
  excludes : s'.server.excludes = s.server.excludes
  rules : s'.server.engine.settings = s.server.engine.settings
  file : s'.disk.get? s.server.excludes.path = s.disk.get? s.server.excludes.path

theorem Calm.refl (s : Site) : Calm s s := ⟨rfl, rfl, rfl⟩

theorem Calm.trans {a b c : Site} (first : Calm a b) (second : Calm b c) : Calm a c :=
  ⟨second.excludes.trans first.excludes, second.rules.trans first.rules,
    (first.excludes ▸ second.file).trans first.file⟩

section
variable {settings : Settings} {s s' : Site}

theorem Orderly.directory (orderly : s.Orderly settings) : s.disk.Directory settings.dataDir :=
  orderly.grounded.roots settings.dataDir List.mem_cons_self

theorem Orderly.sheltered (orderly : s.Orderly settings) : s.disk.Sheltered settings.patternFile :=
  orderly.directory.sheltered Excludes.fileName

theorem draftsElsewhere (settings : Settings) (q : AbsPath) : q.draft ≠ settings.patternFile := by
  intro same
  have ending := draftName q
  have name : settings.patternFile.name = Excludes.fileName := by simp [Settings.patternFile, AbsPath.child, AbsPath.name]
  rw [same, name] at ending
  exact absurd ending (by decide)

theorem Orderly.onDisk {d : Disk} {patterns : List String} (orderly : s.Orderly settings)
    (grounded : d.Grounded settings.ground)
    (loaded : Store.load d settings.patternFile "glob patterns" = .ok patterns) :
    (s.withDisk d).Orderly settings :=
  { orderly with
    grounded := grounded
    stored := ⟨patterns, loaded⟩
    engine := ⟨foreignYielded grounded loaded, orderly.engine.cached, orderly.engine.last⟩ }

theorem Orderly.keeping {d : Disk} (orderly : s.Orderly settings) (grounded : d.Grounded settings.ground)
    (same : d.get? settings.patternFile = s.disk.get? settings.patternFile) :
    (s.withDisk d).Orderly settings ∧ Calm s (s.withDisk d) := by
  obtain ⟨patterns, loaded⟩ := orderly.stored
  have file : d.get? s.server.excludes.path = s.disk.get? s.server.excludes.path := by
    rw [orderly.excludes]
    exact same
  exact ⟨orderly.onDisk grounded ((Store.loadSame _ same).trans loaded), rfl, rfl, file⟩

theorem Orderly.scanned {e : Engine} {source : Source} (orderly : s.Orderly settings)
    (rules : e.settings = s.server.engine.settings) (disk : source.disk = s.disk)
    (traced : e.Traced (Finding.Foreign settings) source) :
    (s.withEngine e source).Orderly settings ∧ Calm s (s.withEngine e source) := by
  have same : (s.withEngine e source).disk = s.disk := disk
  refine ⟨{ orderly with rules := ?_, grounded := ?_, stored := ?_, engine := traced }, rfl, rules, ?_⟩
  · obtain ⟨extra, given⟩ := orderly.rules
    exact ⟨extra, rules.trans given⟩
  · rw [same]
    exact orderly.grounded
  · rw [same]
    exact orderly.stored
  · rw [same]

theorem Orderly.scanWorkspace (orderly : s.Orderly settings) (now : String) :
    (s.scanWorkspace now).2.Orderly settings ∧ Calm s (s.scanWorkspace now).2 :=
  orderly.scanned ((Engine.settingsKept _).scanWorkspace now rfl) ((Engine.diskKept s.disk).scanWorkspace now rfl)
    (orderly.engine.scanWorkspace now).1

theorem Orderly.scanFiles (orderly : s.Orderly settings) (now : String) (paths : List String) :
    (s.scanFiles now paths).2.Orderly settings ∧ Calm s (s.scanFiles now paths).2 :=
  orderly.scanned ((Engine.settingsKept _).scanFiles now paths rfl) ((Engine.diskKept s.disk).scanFiles now paths rfl)
    (orderly.engine.scanFiles now paths).1

theorem Orderly.currentFindings (orderly : s.Orderly settings) (now : String) :
    (s.currentFindings now).2.Orderly settings ∧ Calm s (s.currentFindings now).2 ∧
      ∀ findings, (s.currentFindings now).1 = .ok findings →
        ∀ f ∈ findings, ∃ path, f.Foreign settings path := by
  unfold Site.currentFindings
  split
  · rename_i result last
    refine ⟨orderly, Calm.refl s, ?_⟩
    rintro findings ⟨⟩
    exact orderly.engine.last result last
  · obtain ⟨next, calm⟩ := orderly.scanWorkspace now
    refine ⟨next, calm, ?_⟩
    intro findings scanned f member
    dsimp only at scanned
    cases given : (s.scanWorkspace now).1 with
    | error fault =>
      rw [given] at scanned
      contradiction
    | ok result =>
      rw [given] at scanned
      cases scanned
      obtain ⟨p, -, foreign⟩ := (orderly.engine.scanWorkspace now).2 result given f member
      exact ⟨p.text, foreign⟩

theorem Orderly.cleared {findings : List Finding} (orderly : s.Orderly settings)
    (foreign : ∀ f ∈ findings, ∃ path, f.Foreign settings path) (bookmarks : List String) :
    (s.withDisk (Clear.fromFiles s.disk findings bookmarks).2).Orderly settings ∧
      Calm s (s.withDisk (Clear.fromFiles s.disk findings bookmarks).2) := by
  have lies : ∀ f ∈ findings, f.LiesIn settings.ground := by
    intro f member
    obtain ⟨path, same, p, text, inside, -⟩ := foreign f member
    exact ⟨p, same.trans text, inside⟩
  have grounded := (@Watched.fromFilesStays .willing _ ⟨s.disk, []⟩ _ lies bookmarks).grounded orderly.grounded
  have disk := congrArg Prod.snd (Watched.fromFilesSame ⟨s.disk, []⟩ findings bookmarks)
  have keeps : Disk.Keeps settings.patternFile s.disk (Clear.fromFiles s.disk findings bookmarks).2 := by
    apply Clear.clearEachKeeps orderly.sheltered (draftsElsewhere settings)
    intro path member here
    have listed := ((sortedOnce (fun path : String => path) _ (fun _ _ _ _ same => same)).2 path).mp member
    obtain ⟨f, free, rfl⟩ := List.mem_map.mp listed
    obtain ⟨path, same, p, text, inside, other⟩ := foreign f (List.mem_filter.mp free).1
    rw [same, text, inside.proper.leads here]
    exact other
  apply orderly.keeping _ (keeps.same _ (List.prefix_refl _))
  exact disk ▸ grounded

theorem childOther (dir : AbsPath) {a b : String} (other : a ≠ b) : dir.child a ≠ dir.child b := by
  simpa [AbsPath.child] using other

theorem Orderly.noted (orderly : s.Orderly settings) (noted : Noted s s') :
    s'.Orderly settings ∧ Calm s s' := by
  have other : s.server.journal ≠ settings.patternFile :=
    orderly.journal ▸ childOther settings.dataDir (by decide)
  have same := (noted.keeps orderly.sheltered other).same _ (List.prefix_refl _)
  cases noted with
  | silent => exact ⟨orderly, Calm.refl s⟩
  | written appended =>
    have proper : s.server.journal.Proper := orderly.journal ▸ orderly.data.child (by decide)
    exact orderly.keeping (orderly.grounded.append proper (mapErrorOk appended)) same

theorem Orderly.counted (orderly : s.Orderly settings) (count : Nat) :
    Orderly settings { s with server := { s.server with unnamed := count } } ∧
      Calm s { s with server := { s.server with unnamed := count } } :=
  ⟨{ orderly with }, rfl, rfl, rfl⟩

theorem Orderly.parse (orderly : s.Orderly settings) (payload : Value) :
    (s.parse payload).2.Orderly settings ∧ Calm s (s.parse payload).2 := by
  obtain ⟨count, same⟩ := parseCounts s payload
  rw [same]
  exact orderly.counted count

theorem Orderly.unread {line : List Char} (orderly : s.Orderly settings) (now : String)
    (unread : ∀ payload, Json.read (String.ofList line) ≠ .ok payload) :
    (s.handleLine now line).2.Orderly settings ∧ Calm s (s.handleLine now line).2 := by
  unfold handleLine
  split
  · rename_i payload read
    exact absurd read (unread payload)
  · exact ⟨orderly, Calm.refl s⟩
  · obtain ⟨next, calm⟩ := orderly.counted (s.server.unnamed + 1)
    obtain ⟨last, quiet⟩ := next.noted (respondNoted _ now "invalid_json" _ _)
    exact ⟨last, calm.trans quiet⟩

theorem Orderly.clearTool (orderly : s.Orderly settings) (now : String) (args : Arguments) :
    (s.clearTool now args).2.Orderly settings ∧ Calm s (s.clearTool now args).2 := by
  unfold Site.clearTool
  split
  · exact ⟨orderly, Calm.refl s⟩
  · obtain ⟨next, calm, foreign⟩ := orderly.currentFindings now
    dsimp only
    split
    · exact ⟨next, calm⟩
    · rename_i findings named
      obtain ⟨current, given, targets⟩ := bindOkIff.mp named
      have targeted : ∀ f ∈ findings, ∃ path, f.Foreign settings path :=
        fun f member => foreign current given f (clearTargetsSubset targets f member)
      obtain ⟨last, quiet⟩ := next.cleared targeted (s.currentFindings now).2.server.bookmarks.ids
      unfold clearFound
      dsimp only
      split
      · exact ⟨last, calm.trans quiet⟩
      · split
        · exact ⟨last, calm.trans quiet⟩
        · obtain ⟨again, still⟩ := last.scanWorkspace now
          exact ⟨again, (calm.trans quiet).trans still⟩

theorem Orderly.bookmarkTool (orderly : s.Orderly settings) (args : Arguments) :
    (s.bookmarkTool args).2.Orderly settings ∧ Calm s (s.bookmarkTool args).2 := by
  unfold Site.bookmarkTool
  split
  · split
    · exact ⟨orderly, Calm.refl s⟩
    · rename_i id _ _
      have other : settings.dataDir.child Bookmarks.fileName ≠ settings.patternFile :=
        childOther settings.dataDir (by decide)
      have proper : (settings.dataDir.child Bookmarks.fileName).Proper := orderly.data.child (by decide)
      have saved (texts : List String) := orderly.keeping
        (orderly.grounded.save (orderly.bookmarks.symm ▸ proper) texts)
        (orderly.bookmarks.symm ▸ (Store.saveBeside orderly.directory other (draftsElsewhere settings _)
          orderly.sheltered texts).same _ (List.prefix_refl _))
      obtain ⟨next, calm⟩ := saved (s.server.bookmarks.toggle s.disk id).2.1.sorted
      exact ⟨{ next with bookmarks := orderly.bookmarks }, rfl, rfl, calm.file⟩
  · exact ⟨orderly, Calm.refl s⟩

theorem Orderly.call (orderly : s.Orderly settings) (now : String) (args : Arguments) {tool : Tool}
    (other : tool ≠ .exclude) :
    (s.call now args tool).2.Orderly settings ∧ Calm s (s.call now args tool).2 := by
  cases tool with
  | status => exact ⟨orderly, Calm.refl s⟩
  | scanWorkspace =>
    unfold Site.call scanWorkspaceTool
    dsimp only
    split
    · exact ⟨orderly, Calm.refl s⟩
    · exact orderly.scanWorkspace now
  | scanFiles =>
    unfold Site.call scanFilesTool
    dsimp only
    split
    · exact ⟨orderly, Calm.refl s⟩
    · exact orderly.scanFiles now _
  | insertDump => exact ⟨orderly, Calm.refl s⟩
  | clear => exact orderly.clearTool now args
  | bookmark => exact orderly.bookmarkTool args
  | bookmarks => exact ⟨orderly, Calm.refl s⟩
  | exclude => exact absurd rfl other
  | exportFindings =>
    unfold Site.call exportTool
    dsimp only
    split
    · exact ⟨orderly, Calm.refl s⟩
    · obtain ⟨next, calm, -⟩ := orderly.currentFindings now
      exact ⟨next, calm⟩
  | auditLog => exact ⟨orderly, Calm.refl s⟩

variable {args : Arguments} {pattern : String} {add : Bool}

def revised (s : Site) (pattern : String) (add : Bool) : Site :=
  let (_, excludes, d) := s.server.excludes.update s.disk [pattern] add
  { s with server := { s.server with excludes } }.withDisk d

structure Revised (settings : Settings) (pattern : String) (add : Bool) (s s' : Site) : Prop where
  orderly : s'.Orderly settings
  stays : ∀ other ∈ s.server.excludes.patterns, (other, false) ≠ (pattern, add) →
    other ∈ s'.server.excludes.patterns
  added : add = true → pattern ∈ s'.server.excludes.patterns
  rules : s'.server.engine.settings = s.server.engine.settings ∨
    s'.server.engine.settings = settings.withExcludes s'.server.excludes.patterns
  file : s'.disk.get? settings.patternFile = s.disk.get? settings.patternFile ∨
    Store.load s'.disk settings.patternFile "glob patterns" = .ok s'.server.excludes.patterns

theorem Revised.calm {t : Site} (revised : Revised settings pattern add s s') (next : t.Orderly settings)
    (calm : Calm s' t) : Revised settings pattern add s t := by
  have same : t.disk.get? settings.patternFile = s'.disk.get? settings.patternFile :=
    revised.orderly.excludes ▸ calm.file
  refine ⟨next, ?_, ?_, ?_, ?_⟩
  · rw [calm.excludes]
    exact revised.stays
  · rw [calm.excludes]
    exact revised.added
  · rw [calm.excludes, calm.rules]
    exact revised.rules
  · rw [calm.excludes, same, Store.loadSame _ same]
    exact revised.file

theorem revisedPatterns (known : List String) (pattern : String) (add : Bool) :
    let patterns := if add then Settings.addNew known [pattern] else Excludes.removed known [pattern]
    (∀ other ∈ known, (other, false) ≠ (pattern, add) → other ∈ patterns) ∧ (add = true → pattern ∈ patterns) := by
  cases add with
  | true =>
    refine ⟨fun other member _ => ?_, fun _ => ?_⟩
    · exact Settings.addNewMember.mpr (.inl member)
    · exact Settings.addNewMember.mpr (.inr List.mem_cons_self)
  | false =>
    refine ⟨fun other member apart => ?_, fun wrong => absurd wrong Bool.false_ne_true⟩
    have unlike : other ≠ pattern := fun same => apart (by rw [same])
    exact List.mem_filter.mpr ⟨member, by simpa using unlike⟩

theorem Orderly.revised (orderly : s.Orderly settings) (pattern : String) (add : Bool) :
    Revised settings pattern add s (s.revised pattern add) ∧
      ∀ changed, (s.server.excludes.update s.disk [pattern] add).1 = .ok changed → add = true →
        (pattern ∈ s.server.excludes.patterns → settings.Stored pattern s.disk) →
        settings.Stored pattern (s.revised pattern add).disk := by
  obtain ⟨stays, added⟩ := revisedPatterns s.server.excludes.patterns pattern add
  unfold Site.revised Excludes.update
  dsimp only
  generalize (if add then Settings.addNew s.server.excludes.patterns [pattern]
    else Excludes.removed s.server.excludes.patterns [pattern]) = patterns at stays added
  split
  · rename_i unchanged
    obtain rfl : patterns = s.server.excludes.patterns := by simpa using unchanged
    exact ⟨⟨orderly, stays, added, .inl rfl, .inl rfl⟩, fun _ _ adds stored => stored (added adds)⟩
  · rw [orderly.excludes]
    have grounded := orderly.grounded.save (p := settings.patternFile)
      (orderly.data.child (by decide)) patterns
    rcases Store.saveCases orderly.directory Excludes.fileName patterns with ⟨saved, loaded⟩ | ⟨⟨fault, failed⟩, same⟩
    · have next := orderly.onDisk grounded (loaded "glob patterns")
      refine ⟨⟨{ next with excludes := rfl }, stays, added, .inl rfl, .inr (loaded _)⟩, ?_⟩
      exact fun _ _ adds _ => ⟨patterns, loaded _, added adds⟩
    · have next := (orderly.keeping grounded same).1
      refine ⟨⟨{ next with excludes := rfl }, stays, added, .inl rfl, .inl same⟩, ?_⟩
      intro changed updated
      rw [Settings.patternFile, failed] at updated
      contradiction

def ruled (s : Site) : Site :=
  s.withEngine (s.server.engine.reload (s.server.settings.withExcludes s.server.excludes.patterns)) s.source

theorem Orderly.ruled (orderly : s.Orderly settings) : s.ruled.Orderly settings := by
  refine { orderly with rules := ⟨s.server.excludes.patterns, ?_⟩, engine := ?_ }
  · rw [← orderly.config]
    rfl
  · exact ⟨orderly.engine.fresh, orderly.engine.cached, orderly.engine.last⟩

theorem excludeToolCases (now : String) (asked : s.excludeRequest args = .ok (pattern, add)) :
    (∃ fault, s.excludeTool now args = (.error fault, s.revised pattern add)) ∨
    ∃ changed, (s.server.excludes.update s.disk [pattern] add).1 = .ok changed ∧
      (s.excludeTool now args).2 = ((s.revised pattern add).ruled.scanWorkspace now).2 := by
  unfold excludeTool
  rw [asked]
  dsimp only
  split
  · exact .inl ⟨_, rfl⟩
  · rename_i changed updated
    exact .inr ⟨changed, updated, rfl⟩

theorem Orderly.excluded (orderly : s.Orderly settings) (now : String)
    (asked : s.excludeRequest args = .ok (pattern, add)) :
    Revised settings pattern add s (s.excludeTool now args).2 := by
  obtain ⟨revised, -⟩ := orderly.revised pattern add
  rcases excludeToolCases now asked with ⟨fault, failed⟩ | ⟨changed, -, done⟩
  · rw [failed]
    exact revised
  · rw [done]
    obtain ⟨next, calm⟩ := revised.orderly.ruled.scanWorkspace now
    refine Revised.calm ?_ next calm
    exact ⟨revised.orderly.ruled, revised.stays, revised.added, .inr (revised.orderly.config ▸ rfl), revised.file⟩

theorem excludeRequestParsed (s : Site) (payload : Value) (args : Arguments) :
    (s.parse payload).2.excludeRequest args = s.excludeRequest args := by
  obtain ⟨count, counted⟩ := parseCounts s payload
  rw [counted]
  rfl

theorem Orderly.handled (orderly : s.Orderly settings) (now : String) (payload : Value) :
    ((s.handle now payload).2.Orderly settings ∧ Calm s (s.handle now payload).2) ∨
    ∃ args pattern add, s.called? payload = some (.exclude, args) ∧ s.excludeRequest args = .ok (pattern, add) ∧
      Revised settings pattern add s (s.handle now payload).2 := by
  obtain ⟨count, counted⟩ := parseCounts s payload
  obtain ⟨ready, calm⟩ := orderly.parse payload
  rcases handleNoted s now payload with ⟨-, noted⟩ | ⟨tool, args, called, noted⟩
  · obtain ⟨next, quiet⟩ := ready.noted noted
    exact .inl ⟨next, calm.trans quiet⟩
  · by_cases excludes : tool = .exclude
    · subst excludes
      have request := excludeRequestParsed s payload args
      cases asked : s.excludeRequest args with
      | error fault =>
        have same : ((s.parse payload).2.call now args .exclude).2 = (s.parse payload).2 := by
          simp only [Site.call, excludeTool, request, asked]
        obtain ⟨next, quiet⟩ := ready.noted (same ▸ noted)
        exact .inl ⟨next, calm.trans quiet⟩
      | ok pair =>
        obtain ⟨pattern, add⟩ := pair
        have revised := ready.excluded now (request.trans asked)
        obtain ⟨next, quiet⟩ := revised.orderly.noted noted
        have last := revised.calm next quiet
        rw [counted] at last
        exact .inr ⟨args, pattern, add, called, asked, last.orderly, last.stays, last.added, last.rules, last.file⟩
    · obtain ⟨done, still⟩ := ready.call now args excludes
      obtain ⟨next, quiet⟩ := done.noted noted
      exact .inl ⟨next, (calm.trans still).trans quiet⟩

end
end Site
end DebugSweep
