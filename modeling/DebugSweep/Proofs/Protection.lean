import DebugSweep.Proofs.ClearedFiles
import DebugSweep.Proofs.Scanning
import DebugSweep.Server.Requests

/-! Bookmarked findings over whole runs of requests. A bookmark belongs to a place, so it protects
what stands there. Main statement: a bookmarked finding stays at its place as long as nothing before
it is cleared from its file, and the first request that does clear something before it still leaves
its text in the file. -/
namespace DebugSweep.Site
open Clear Disk

def called? (s : Site) (payload : Value) : Option (Tool × Arguments) :=
  match s.parse payload with
  | (.error _, _) => none
  | (.ok request, _) =>
      match target request with
      | .error _ => none
      | .ok (name, args) => (toolRegistry.get? name).map (fun tool => (tool, args))

def toggles (s : Site) (payload : Value) (id : String) : Bool :=
  match s.called? payload with
  | some (.bookmark, args) =>
      match Value.fieldIn? "id" args with
      | some (.text toggled) => toggled == id
      | _ => false
  | _ => false

def named (s : Site) (now : String) (args : Arguments) : List Finding :=
  if namesTargets args then
    let (current, s') := s.currentFindings now
    match current >>= s'.clearTargets args with
    | .error _ => []
    | .ok findings => findings
  else []

def clears (s : Site) (now : String) (payload : Value) (p : AbsPath) (id : String) : List Finding :=
  match s.called? payload with
  | some (.clear, args) =>
      (clearedAt s.disk p ((s.parse payload).2.named now args) s.server.bookmarks.ids).filter
        (fun g => g.id != id)
  | _ => []

def after (s : Site) : List (String × Value) → Site
  | [] => s
  | (now, payload) :: rest => (s.handle now payload).2.after rest

structure Aside (s : Site) (p : AbsPath) : Prop where
  journal : s.server.journal ≠ p
  bookmarks : s.server.bookmarks.path ≠ p
  excludes : s.server.excludes.path ≠ p

structure Guarded (s : Site) (p : AbsPath) (f : Finding) : Prop where
  aside : s.Aside p
  marked : f.id ∈ s.server.bookmarks.ids
  placed : Placed s.disk p f

structure Alike (s s' : Site) : Prop where
  disk : s'.disk = s.disk
  bookmarks : s'.server.bookmarks = s.server.bookmarks
  journal : s'.server.journal = s.server.journal
  excludes : s'.server.excludes = s.server.excludes

theorem Alike.refl (s : Site) : Alike s s := ⟨rfl, rfl, rfl, rfl⟩

theorem Alike.trans {a b c : Site} (first : Alike a b) (second : Alike b c) : Alike a c :=
  ⟨second.disk.trans first.disk, second.bookmarks.trans first.bookmarks,
    second.journal.trans first.journal, second.excludes.trans first.excludes⟩

theorem scanWorkspaceAlike (s : Site) (now : String) : Alike s (s.scanWorkspace now).2 :=
  ⟨(Engine.diskKept s.disk).scanWorkspace now rfl, rfl, rfl, rfl⟩

theorem scanFilesAlike (s : Site) (now : String) (paths : List String) :
    Alike s (s.scanFiles now paths).2 :=
  ⟨(Engine.diskKept s.disk).scanFiles now paths rfl, rfl, rfl, rfl⟩

theorem currentFindingsAlike (s : Site) (now : String) : Alike s (s.currentFindings now).2 := by
  unfold currentFindings
  split
  · exact Alike.refl s
  · exact scanWorkspaceAlike s now

theorem nextIdAlike (s : Site) : Alike s s.nextId.2 := ⟨rfl, rfl, rfl, rfl⟩

theorem idOfAlike (s : Site) (value : Option Value) : Alike s (s.idOf value).2 := by
  unfold idOf
  split
  · split
    · exact nextIdAlike s
    · exact Alike.refl s
  · exact Alike.refl s
  · exact nextIdAlike s

theorem parseAlike (s : Site) (payload : Value) : Alike s (s.parse payload).2 := by
  unfold parse
  split
  · rename_i fields
    have named := idOfAlike s (Value.fieldIn? "id" fields)
    dsimp only
    split
    · split
      · exact named
      · split <;> exact named
    · exact named
  · exact nextIdAlike s

section
variable {s s' : Site} {p : AbsPath} {f : Finding}

theorem Aside.alike (aside : s.Aside p) (alike : Alike s s') : s'.Aside p := by
  refine ⟨?_, ?_, ?_⟩
  · rw [alike.journal]
    exact aside.journal
  · rw [alike.bookmarks]
    exact aside.bookmarks
  · rw [alike.excludes]
    exact aside.excludes

structure Safe (s : Site) (p : AbsPath) (f : Finding) : Prop where
  aside : s.Aside p
  placed : Placed s.disk p f

theorem Safe.alike (safe : s.Safe p f) (alike : Alike s s') : s'.Safe p f := by
  refine ⟨safe.aside.alike alike, ?_⟩
  rw [alike.disk]
  exact safe.placed

theorem Safe.withDisk {d : Disk} (safe : s.Safe p f) (placed : Placed d p f) :
    (s.withDisk d).Safe p f :=
  ⟨⟨safe.aside.journal, safe.aside.bookmarks, safe.aside.excludes⟩, placed⟩

theorem bookmarkToolSafe (safe : s.Safe p f) (drafts : ∀ q : AbsPath, q.draft ≠ p) (args : Arguments) :
    (s.bookmarkTool args).2.Safe p f := by
  unfold bookmarkTool
  split
  · split
    · exact safe
    · exact ⟨⟨safe.aside.journal, safe.aside.bookmarks, safe.aside.excludes⟩,
        safe.placed.kept (Store.saveKeeps safe.placed.settled safe.aside.bookmarks (drafts _) _)⟩
  · exact safe

theorem excludesUpdateKeeps {d : Disk} (x : Excludes) (settled : d.Settled p) (other : x.path ≠ p)
    (draft : x.path.draft ≠ p) (patterns : List String) (add : Bool) :
    (x.update d patterns add).2.1.path = x.path ∧ Keeps p d (x.update d patterns add).2.2 := by
  unfold Excludes.update
  dsimp only
  generalize (if add then Settings.addNew x.patterns patterns
    else Excludes.removed x.patterns patterns) = patterns'
  split
  · exact ⟨rfl, Keeps.refl p d⟩
  · exact ⟨rfl, Store.saveKeeps settled other draft _⟩

theorem excludeToolSafe (safe : s.Safe p f) (drafts : ∀ q : AbsPath, q.draft ≠ p) (now : String)
    (args : Arguments) : (s.excludeTool now args).2.Safe p f := by
  unfold excludeTool
  split
  · exact safe
  · rename_i pattern add _
    obtain ⟨path, keeps⟩ := excludesUpdateKeeps s.server.excludes safe.placed.settled
      safe.aside.excludes (drafts _) [pattern] add
    have updated : (withDisk { s with server := { s.server with
        excludes := (s.server.excludes.update s.disk [pattern] add).2.1 } }
        (s.server.excludes.update s.disk [pattern] add).2.2).Safe p f :=
      ⟨⟨safe.aside.journal, safe.aside.bookmarks, path ▸ safe.aside.excludes⟩,
        safe.placed.kept keeps⟩
    dsimp only
    split
    · exact updated
    · refine Safe.alike ?_ (scanWorkspaceAlike _ now)
      exact updated.alike ⟨rfl, rfl, rfl, rfl⟩

theorem callSafe (safe : s.Safe p f) (drafts : ∀ q : AbsPath, q.draft ≠ p) (now : String)
    (args : Arguments) {tool : Tool} (other : tool ≠ .clear) : (s.call now args tool).2.Safe p f := by
  cases tool with
  | status => exact safe
  | scanWorkspace =>
    unfold call scanWorkspaceTool
    dsimp only
    split
    · exact safe
    · exact safe.alike (scanWorkspaceAlike s now)
  | scanFiles =>
    unfold call scanFilesTool
    dsimp only
    split
    · exact safe
    · exact safe.alike (scanFilesAlike s now _)
  | insertDump => exact safe
  | clear => exact absurd rfl other
  | bookmark => exact bookmarkToolSafe safe drafts args
  | bookmarks => exact safe
  | exclude => exact excludeToolSafe safe drafts now args
  | exportFindings =>
    unfold call exportTool
    dsimp only
    split
    · exact safe
    · exact safe.alike (currentFindingsAlike s now)
  | auditLog => exact safe

theorem clearFoundAlike (s : Site) (now : String) (findings : List Finding) :
    Alike (s.withDisk (fromFiles s.disk findings s.server.bookmarks.ids).2)
      (s.clearFound now findings).2 := by
  unfold clearFound
  dsimp only
  split
  · exact Alike.refl _
  · split
    · exact Alike.refl _
    · exact scanWorkspaceAlike _ now

theorem clearToolAlike (s : Site) (now : String) (args : Arguments) :
    Alike s (s.clearTool now args).2 ∨
      Alike (s.withDisk (fromFiles s.disk (s.named now args) s.server.bookmarks.ids).2)
        (s.clearTool now args).2 := by
  have current := currentFindingsAlike s now
  unfold clearTool named
  cases namesTargets args with
  | false => exact Or.inl (Alike.refl s)
  | true =>
    simp only [Bool.not_true, Bool.false_eq_true, if_false, if_true]
    generalize (s.currentFindings now).1 >>= (s.currentFindings now).2.clearTargets args = targets
    cases targets with
    | error fault => exact Or.inl current
    | ok findings =>
      right
      have cleared := clearFoundAlike (s.currentFindings now).2 now findings
      rw [current.disk, current.bookmarks] at cleared
      have moved (d : Disk) : Alike (s.withDisk d) ((s.currentFindings now).2.withDisk d) :=
        ⟨rfl, current.bookmarks, current.journal, current.excludes⟩
      exact (moved _).trans cleared

theorem Guarded.safe (guarded : s.Guarded p f) : s.Safe p f := ⟨guarded.aside, guarded.placed⟩

theorem bookmarkToolMarked {args : Arguments} {id : String} (marked : id ∈ s.server.bookmarks.ids)
    (other : Value.fieldIn? "id" args ≠ some (.text id)) :
    id ∈ (s.bookmarkTool args).2.server.bookmarks.ids := by
  unfold bookmarkTool
  split
  · rename_i toggled asked
    split
    · exact marked
    · have apart : id ≠ toggled := by
        rintro rfl
        exact other asked
      show id ∈ (s.server.bookmarks.toggle s.disk toggled).2.1.ids
      unfold Bookmarks.toggle
      dsimp only
      split
      · exact List.mem_filter.mpr ⟨marked, by simpa using apart⟩
      · exact List.mem_append_left _ marked
  · exact marked

theorem callMarked {args : Arguments} {tool : Tool} {id : String} (now : String)
    (marked : id ∈ s.server.bookmarks.ids)
    (other : tool = .bookmark → Value.fieldIn? "id" args ≠ some (.text id)) :
    id ∈ (s.call now args tool).2.server.bookmarks.ids := by
  cases tool with
  | bookmark => exact bookmarkToolMarked marked (other rfl)
  | clear =>
    rcases clearToolAlike s now args with alike | alike
    · exact alike.bookmarks ▸ marked
    · exact alike.bookmarks ▸ marked
  | status => exact marked
  | scanWorkspace =>
    unfold call scanWorkspaceTool
    dsimp only
    split <;> exact marked
  | scanFiles =>
    unfold call scanFilesTool
    dsimp only
    split <;> exact marked
  | insertDump => exact marked
  | bookmarks => exact marked
  | exclude =>
    unfold call excludeTool
    dsimp only
    split
    · exact marked
    · split <;> exact marked
  | exportFindings =>
    unfold call exportTool
    dsimp only
    split
    · exact marked
    · exact (currentFindingsAlike s now).bookmarks ▸ marked
  | auditLog => exact marked

inductive Noted (s : Site) : Site → Prop
  | silent : Noted s s
  | written {d : Disk} {event : Journal.Event}
      (appended : Journal.append s.disk s.server.journal event = .ok d) : Noted s (s.withDisk d)

theorem noteWritten {now tool : String} {args : Arguments} {r : Response}
    (written : s.note now tool args r = .ok s') :
    ∃ d event, Journal.append s.disk s.server.journal event = .ok d ∧ s' = s.withDisk d := by
  unfold note at written
  dsimp only at written
  generalize hevent : Journal.Event.mk _ _ _ _ _ _ _ _ = event at written
  cases appended : Journal.append s.disk s.server.journal event with
  | error fault =>
    rw [appended] at written
    contradiction
  | ok d =>
    rw [appended] at written
    cases written
    exact ⟨d, event, appended, rfl⟩

theorem respondNoted (s : Site) (now tool : String) (args : Arguments) (r : Response) :
    Noted s (s.respond now tool args r).2 := by
  unfold respond
  split
  · obtain ⟨d, event, appended, rfl⟩ := noteWritten (by assumption)
    exact .written appended
  · exact .silent

theorem Noted.keeps {s s' : Site} {p : AbsPath} (noted : Noted s s') (above : s.disk.Sheltered p)
    (journal : s.server.journal ≠ p) : Keeps p s.disk s'.disk := by
  cases noted with
  | silent => exact Keeps.refl p _
  | written appended => exact appendKeeps above journal (mapErrorOk appended)

theorem Noted.server {s s' : Site} (noted : Noted s s') : s'.server = s.server := by
  cases noted with
  | silent => rfl
  | written appended => rfl

theorem handleNoted (s : Site) (now : String) (payload : Value) :
    (s.called? payload = none ∧ Noted (s.parse payload).2 (s.handle now payload).2) ∨
    ∃ tool args, s.called? payload = some (tool, args) ∧
      Noted ((s.parse payload).2.call now args tool).2 (s.handle now payload).2 := by
  unfold called? handle
  split
  · rename_i response t parsed
    simp only [parsed]
    exact Or.inl ⟨trivial, respondNoted _ _ _ _ _⟩
  · rename_i request t parsed
    simp only [parsed]
    cases aim : target request with
    | error response => exact Or.inl ⟨rfl, .silent⟩
    | ok pair =>
      obtain ⟨name, args⟩ := pair
      dsimp only
      unfold dispatch Registry.find
      cases known : toolRegistry.get? name with
      | none => exact Or.inl ⟨rfl, respondNoted _ _ _ _ _⟩
      | some tool =>
        right
        refine ⟨tool, args, rfl, ?_⟩
        dsimp only
        split
        · rename_i fault t' outcome
          rw [show t' = (t.call now args tool).2 by rw [outcome]]
          exact respondNoted _ _ _ _ _
        · rename_i value t' outcome
          rw [show t' = (t.call now args tool).2 by rw [outcome]]
          exact respondNoted _ _ _ _ _

theorem Safe.noted (safe : s.Safe p f) (noted : Noted s s') : s'.Safe p f := by
  refine ⟨⟨?_, ?_, ?_⟩, safe.placed.kept (noted.keeps safe.placed.settled.above safe.aside.journal)⟩
  · rw [noted.server]
    exact safe.aside.journal
  · rw [noted.server]
    exact safe.aside.bookmarks
  · rw [noted.server]
    exact safe.aside.excludes

theorem clearsCleared {now : String} {payload : Value} {args : Arguments} (marked : f.id ∈ s.server.bookmarks.ids)
    (calls : s.called? payload = some (.clear, args)) :
    s.clears now payload p f.id =
      clearedAt s.disk p ((s.parse payload).2.named now args) s.server.bookmarks.ids := by
  unfold clears
  rw [calls]
  apply List.filter_eq_self.mpr
  intro g member
  have free : g.id ∉ s.server.bookmarks.ids := by
    have := (List.mem_filter.mp member).2
    simp only [Bool.and_eq_true] at this
    simpa using this.1
  have other : g.id ≠ f.id := fun same => free (same ▸ marked)
  simpa using other

theorem handleGuarded (guarded : s.Guarded p f) (drafts : ∀ q : AbsPath, q.draft ≠ p) {now : String}
    {payload : Value} (untouched : s.toggles payload f.id = false)
    (behind : ∀ g ∈ s.clears now payload p f.id, Before f g) :
    (s.handle now payload).2.Guarded p f := by
  have alike := parseAlike s payload
  have safe := guarded.safe.alike alike
  have marked : f.id ∈ (s.parse payload).2.server.bookmarks.ids := alike.bookmarks ▸ guarded.marked
  suffices call : ∃ t, Noted t (s.handle now payload).2 ∧ t.Safe p f ∧ f.id ∈ t.server.bookmarks.ids by
    obtain ⟨t, noted, safe, marked⟩ := call
    have after := safe.noted noted
    exact ⟨after.aside, noted.server ▸ marked, after.placed⟩
  rcases handleNoted s now payload with ⟨_, noted⟩ | ⟨tool, args, calls, noted⟩
  · exact ⟨_, noted, safe, marked⟩
  · refine ⟨_, noted, ?_, ?_⟩
    · by_cases clear : tool = .clear
      · subst clear
        rcases clearToolAlike (s.parse payload).2 now args with same | cleared
        · exact safe.alike same
        · rw [clearsCleared guarded.marked calls, ← alike.disk, ← alike.bookmarks] at behind
          exact (safe.withDisk (fromFilesPlaced safe.placed drafts behind)).alike cleared
      · exact callSafe safe drafts now args clear
    · apply callMarked now marked
      rintro rfl named
      simp [toggles, calls, named] at untouched

theorem handleHolds (guarded : s.Guarded p f) (drafts : ∀ q : AbsPath, q.draft ≠ p) {now : String}
    {payload : Value} {parts : List (List Char)} (held : linesAt? s.disk p = some parts)
    (orderly : Orderly parts f (s.clears now payload p f.id)) :
    Holds (s.handle now payload).2.disk p f.content.toList := by
  have alike := parseAlike s payload
  have safe := guarded.safe.alike alike
  suffices call : ∃ t, Noted t (s.handle now payload).2 ∧ t.disk.Settled p ∧
      t.server.journal ≠ p ∧ Holds t.disk p f.content.toList by
    obtain ⟨t, noted, settled, journal, holds⟩ := call
    rw [Holds, linesAtKept (noted.keeps settled.above journal)]
    exact holds
  rcases handleNoted s now payload with ⟨_, noted⟩ | ⟨tool, args, calls, noted⟩
  · exact ⟨_, noted, safe.placed.settled, safe.aside.journal, safe.placed.holds⟩
  · refine ⟨_, noted, ?_⟩
    by_cases clear : tool = .clear
    · subst clear
      rw [clearsCleared guarded.marked calls, ← alike.disk, ← alike.bookmarks] at orderly
      rw [← alike.disk] at held
      rcases clearToolAlike (s.parse payload).2 now args with same | cleared
      · have after := safe.alike same
        exact ⟨after.placed.settled, after.aside.journal, after.placed.holds⟩
      · have settled : (fromFiles (s.parse payload).2.disk ((s.parse payload).2.named now args)
            (s.parse payload).2.server.bookmarks.ids).2.Settled p :=
          clearEachSettled safe.placed.settled drafts
        have holds := fromFilesHolds safe.placed drafts held orderly
        refine ⟨?_, ?_, ?_⟩
        · exact cleared.disk ▸ settled
        · exact cleared.journal ▸ safe.aside.journal
        · exact cleared.disk ▸ holds
    · have after := callSafe safe drafts now args clear
      exact ⟨after.placed.settled, after.aside.journal, after.placed.holds⟩

def Untoggled (s : Site) (id : String) : List (String × Value) → Prop
  | [] => True
  | (now, payload) :: rest =>
      s.toggles payload id = false ∧ (s.handle now payload).2.Untoggled id rest

def Behind (s : Site) (p : AbsPath) (f : Finding) : List (String × Value) → Prop
  | [] => True
  | (now, payload) :: rest =>
      (∀ g ∈ s.clears now payload p f.id, Before f g) ∧ (s.handle now payload).2.Behind p f rest

theorem runGuarded {requests : List (String × Value)} (guarded : s.Guarded p f)
    (drafts : ∀ q : AbsPath, q.draft ≠ p) (untoggled : s.Untoggled f.id requests)
    (behind : s.Behind p f requests) : (s.after requests).Guarded p f := by
  induction requests generalizing s with
  | nil => exact guarded
  | cons request rest ih =>
    obtain ⟨now, payload⟩ := request
    obtain ⟨untouched, untoggled⟩ := untoggled
    obtain ⟨here, behind⟩ := behind
    exact ih (handleGuarded guarded drafts untouched here) untoggled behind

theorem draftName (q : AbsPath) : ".tmp".toList <:+ q.draft.name.toList := by
  have name : q.draft.name = q.name ++ ".tmp" := by simp [AbsPath.draft, AbsPath.child, AbsPath.name]
  rw [name, String.toList_append]
  exact List.suffix_append _ _

theorem bookmarkProtects {requests : List (String × Value)} {now : String} {payload : Value}
    {parts : List (List Char)} (guarded : s.Guarded p f) (plain : ¬ ".tmp".toList <:+ p.name.toList)
    (untoggled : s.Untoggled f.id requests) (behind : s.Behind p f requests)
    (held : linesAt? (s.after requests).disk p = some parts)
    (orderly : Orderly parts f ((s.after requests).clears now payload p f.id)) :
    Placed (s.after requests).disk p f ∧
      Holds ((s.after requests).handle now payload).2.disk p f.content.toList := by
  have drafts : ∀ q : AbsPath, q.draft ≠ p := by
    rintro q rfl
    exact plain (draftName q)
  have reached := runGuarded guarded drafts untoggled behind
  exact ⟨reached.placed, handleHolds reached drafts held orderly⟩

end

def twoDumps : Site :=
  let settings := { Settings.default ⟨["w"]⟩ with dataDir := ⟨["data"]⟩ }
  let findings := Scan.text ⟨"/w/a.php", "a.php"⟩ "dd(1);\necho 2;\n".toList
  { server := {
      settings
      excludes := ⟨⟨["data", "excludes.json"]⟩, []⟩
      engine := { settings, last := some ⟨findings, 1, 2, []⟩ }
      bookmarks := ⟨⟨["data", "bookmarks.json"]⟩, ["/w/a.php:2:0"]⟩
      journal := ⟨["data", "audit.jsonl"]⟩ }
    source := { disk := {
      nodes := [(⟨["w"]⟩, .dir), (⟨["w", "a.php"]⟩, .file "dd(1);\necho 2;\n".toUTF8 1), (⟨["data"]⟩, .dir)]
      here := ⟨["w"]⟩ } } }

def secondDump : Finding :=
  { id := "/w/a.php:2:0", filePath := "/w/a.php", relativePath := "a.php", lineNumber := 2, column := 0
    content := "echo 2;", context := "echo 2;", kind := .echo, severity := .info }

def clearAll : Value :=
  .record [("method", .text "debug.clear"), ("params", .record [("all", .bool true)])]

theorem twoDumpsGuarded : twoDumps.Guarded ⟨["w", "a.php"]⟩ secondDump := by
  refine ⟨⟨by decide, by decide, by decide⟩, by decide, by decide +kernel, by decide +kernel, ?_⟩
  exact ⟨["dd(1);".toList, "echo 2;".toList, []], by decide +kernel, by decide +kernel⟩

theorem clearAllLeavesSecondDump :
    let asked := [("t", Value.record [("method", .text "debug.status")])]
    Placed (twoDumps.after asked).disk ⟨["w", "a.php"]⟩ secondDump ∧
      Holds ((twoDumps.after asked).handle "t" clearAll).2.disk ⟨["w", "a.php"]⟩
        secondDump.content.toList := by
  intro asked
  have untoggled : twoDumps.Untoggled secondDump.id asked := ⟨by decide +kernel, trivial⟩
  have behind : twoDumps.Behind ⟨["w", "a.php"]⟩ secondDump asked := ⟨by decide +kernel, trivial⟩
  have held : linesAt? (twoDumps.after asked).disk ⟨["w", "a.php"]⟩ =
      some ["dd(1);".toList, "echo 2;".toList, []] := by decide +kernel
  exact bookmarkProtects twoDumpsGuarded (by decide) untoggled behind held
    ⟨by decide +kernel, by decide +kernel, by decide +kernel⟩

theorem movedDumpLost :
    (∃ result, twoDumps.server.engine.last = some result ∧ secondDump ∈ result.findings) ∧
    twoDumps.Guarded ⟨["w", "a.php"]⟩ secondDump ∧
    ¬ ∀ requests, twoDumps.Untoggled secondDump.id requests →
      Holds (twoDumps.after requests).disk ⟨["w", "a.php"]⟩ secondDump.content.toList := by
  refine ⟨⟨_, rfl, by decide +kernel⟩, twoDumpsGuarded, ?_⟩
  intro all
  have kept := all [("t", clearAll), ("t", clearAll)] ⟨by decide +kernel, by decide +kernel, trivial⟩
  exact absurd kept (by decide +kernel)

end DebugSweep.Site
