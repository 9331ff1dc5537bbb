import DebugSweep.Proofs.OneLine
import DebugSweep.Proofs.Protection

/-! The journal of requests. Main statement: every line that is not blank gets one response, and one
event that tells of that response is appended to the journal as one line, exactly when no line calls a tool
without naming it. -/
namespace DebugSweep

namespace Disk

def bytesAt (d : Disk) (p : AbsPath) : ByteArray := (Engine.contentOf? d p).getD ByteArray.empty

theorem writtenBytes {d d' : Disk} {p : AbsPath} {content : ByteArray} (written : d.write p content = .ok d') :
    d'.bytesAt p = content := by
  simp [bytesAt, Engine.contentOf?, (writtenFile written).2]

theorem appendedFile {d d' : Disk} {p : AbsPath} {content : ByteArray} (done : d.append p content = .ok d') :
    p.names ≠ [] ∧ ∃ whole mtime, d'.get? p = some (.file whole mtime) := by
  unfold append at done
  split at done
  · exact ⟨(writtenFile done).1, _, _, (writtenFile done).2⟩
  · exact ⟨(writtenFile done).1, _, _, (writtenFile done).2⟩

theorem appendedBytes {d d' : Disk} {p : AbsPath} {content : ByteArray} (done : d.append p content = .ok d') :
    d'.bytesAt p = d.bytesAt p ++ content ∧ ∀ q, q ≠ p → d'.get? q = d.get? q := by
  unfold append at done
  split at done
  · rename_i old mtime file
    have before : d.bytesAt p = old := by simp [bytesAt, Engine.contentOf?, file]
    rw [before]
    exact ⟨writtenBytes done, fun q other => writeOthers done other⟩
  · rename_i noFile
    have before : d.bytesAt p = ByteArray.empty := by
      unfold bytesAt Engine.contentOf?
      split
      · rename_i old mtime file
        exact absurd file (noFile old mtime)
      · rfl
    rw [before, ByteArray.empty_append]
    exact ⟨writtenBytes done, fun q other => writeOthers done other⟩

end Disk

namespace Journal

theorem appendedLine {d d' : Disk} {p : AbsPath} {event : Event} (done : append d p event = .ok d') :
    d'.bytesAt p = d.bytesAt p ++ (lineOfEvent event).toUTF8 ∧ ∀ q, q ≠ p → d'.get? q = d.get? q :=
  Disk.appendedBytes (mapErrorOk done)

theorem appendable {d : Disk} {p : AbsPath} (folder : d.isDir p.parent = true) (free : d.Free p) (event : Event) :
    ∃ d', append d p event = .ok d' := by
  have writes := fun content => Disk.writeFree free folder content
  unfold append Disk.append
  split
  · rename_i old mtime _
    obtain ⟨d', written⟩ := writes (old ++ (lineOfEvent event).toUTF8)
    exact ⟨d', by rw [written]; rfl⟩
  · obtain ⟨d', written⟩ := writes (lineOfEvent event).toUTF8
    exact ⟨d', by rw [written]; rfl⟩

theorem lineInline (event : Event) :
    ∃ body : List Char, '\n' ∉ body ∧ (lineOfEvent event).toList = body ++ ['\n'] :=
  ⟨_, Json.writeInline event.toValue, by simp [lineOfEvent]⟩

end Journal

namespace Site

def namesTool (params : Arguments) : Bool :=
  match Value.fieldIn? "name" params, (Value.fieldIn? "arguments" params).getD (.record []) with
  | some (.text name), .record _ => name != ""
  | _, _ => false

def misaddressed (line : List Char) : Bool :=
  match Json.read (String.ofList line) with
  | .ok (.record fields) =>
      match Value.fieldIn? "method" fields, (Value.fieldIn? "params" fields).getD (.record []) with
      | some (.text method), .record params => method == "tools/call" && !namesTool params
      | _, _ => false
  | _ => false

def overlong (line : List Char) : Bool :=
  match Json.read (String.ofList line) with
  | .error (.longNumber _) => true
  | _ => false

def behind (s : Site) (now : String) (line : List Char) : Site :=
  match Json.read (String.ofList line) with
  | .error (.longNumber _) => s
  | .error .malformed => s.nextId.2
  | .ok payload =>
      match s.parse payload with
      | (.error _, s') => s'
      | (.ok request, s') =>
          match target request with
          | .error _ => s'
          | .ok (tool, args) => (s'.dispatch now request.id tool args).2

structure Tells (event : Journal.Event) (response : Response) : Prop where
  requestId : event.requestId = response.requestId
  ok : event.ok = response.ok
  blocked : event.blocked = response.blocked
  errorCode : event.errorCode = response.error.map Prod.fst

structure Appended (journal : AbsPath) (event : Journal.Event) (d d' : Disk) : Prop where
  bytes : d'.bytesAt journal = d.bytesAt journal ++ (Journal.lineOfEvent event).toUTF8
  others : ∀ q, q ≠ journal → d'.get? q = d.get? q

def Writable (s : Site) : Prop := ∀ event, ∃ d, Journal.append s.disk s.server.journal event = .ok d

theorem respondAppends {s : Site} (writable : s.Writable) (now tool : String) (args : Arguments)
    (r : Response) : ∃ event s', s.respond now tool args r = (.ok r, s') ∧ Tells event r ∧
      Appended s.server.journal event s.disk s'.disk ∧ s'.server = s.server := by
  unfold respond note
  dsimp only
  generalize hevent : Journal.Event.mk _ _ _ _ _ _ _ _ = event
  obtain ⟨d, done⟩ := writable event
  obtain ⟨bytes, others⟩ := Journal.appendedLine done
  rw [done]
  subst hevent
  exact ⟨_, s.withDisk d, rfl, ⟨rfl, rfl, rfl, rfl⟩, ⟨bytes, others⟩, rfl⟩

theorem targetNames (request : Request) :
    (target request).isOk = !(request.method == "tools/call" && !namesTool request.params) := by
  unfold target namesTool
  dsimp only
  cases request.method == "tools/call" with
  | false => rfl
  | true =>
    simp only [if_true, Bool.true_and, Bool.not_not]
    split
    · rename_i name named
      rw [named]
      split
      · rename_i empty
        have same : name = "" := by simpa using empty
        subst same
        split <;> simp_all [Except.isOk, Except.toBool]
      · rename_i some
        split
        · rename_i args given
          rw [given]
          simpa [Except.isOk, Except.toBool] using some
        · rename_i unfit
          split <;> simp_all [Except.isOk, Except.toBool]
    · rename_i unnamed
      split <;> simp_all [Except.isOk, Except.toBool]

theorem misaddressedParsed {line : List Char} {payload : Value} (s : Site)
    (read : Json.read (String.ofList line) = .ok payload) :
    misaddressed line = match (s.parse payload).1 with
      | .ok request => !(target request).isOk
      | .error _ => false := by
  unfold misaddressed
  rw [read]
  unfold parse
  cases payload with
  | record fields =>
    dsimp only
    cases Value.fieldIn? "method" fields with
    | none => rfl
    | some method =>
      cases method with
      | text method =>
        dsimp only
        by_cases empty : method = ""
        · subst empty
          cases (Value.fieldIn? "params" fields).getD (.record []) <;> rfl
        · rw [if_neg (by simpa using empty)]
          cases (Value.fieldIn? "params" fields).getD (.record []) with
          | record params =>
            dsimp only
            rw [targetNames, Bool.not_not]
          | _ => rfl
      | _ => rfl
  | _ => rfl

section
variable {s : Site} {now : String} {line : List Char}

theorem handleLineNoted (short : overlong line = false) (addressed : misaddressed line = false)
    (writable : (s.behind now line).Writable) :
    ∃ response event s', s.handleLine now line = (.ok response, s') ∧ Tells event response ∧
      Appended (s.behind now line).server.journal event (s.behind now line).disk s'.disk ∧
      s'.server = (s.behind now line).server := by
  unfold behind at writable ⊢
  unfold handleLine
  cases read : Json.read (String.ofList line) with
  | error cause =>
    cases cause with
    | malformed =>
      rw [read] at writable
      obtain ⟨event, s', responded, rest⟩ := respondAppends writable now "invalid_json"
        [("raw_line_length", .ofNat line.length)] _
      exact ⟨_, event, s', responded, rest⟩
    | longNumber digits => simp [overlong, read] at short
  | ok payload =>
    have named := misaddressedParsed s read
    rw [addressed] at named
    rw [read] at writable
    unfold handle
    dsimp only at writable ⊢
    cases parsed : s.parse payload with
    | mk outcome s₁ =>
      rw [parsed] at writable named
      cases outcome with
      | error response =>
        obtain ⟨event, s', responded, rest⟩ := respondAppends writable now "invalid_request" [] response
        exact ⟨_, event, s', responded, rest⟩
      | ok request =>
        cases aim : target request with
        | error response => simp [aim, Except.isOk, Except.toBool] at named
        | ok pair =>
          obtain ⟨tool, args⟩ := pair
          simp only [aim] at writable ⊢
          obtain ⟨event, s', responded, rest⟩ := respondAppends writable now tool args _
          exact ⟨_, event, s', responded, rest⟩

theorem handleLineUnnoted (s : Site) (now : String) (unaddressed : misaddressed line = true) :
    ∃ response s', s.handleLine now line = (.ok response, s') ∧ Alike s s' := by
  unfold handleLine
  cases read : Json.read (String.ofList line) with
  | error cause => simp [misaddressed, read] at unaddressed
  | ok payload =>
    have named := misaddressedParsed s read
    have alike := parseAlike s payload
    rw [unaddressed] at named
    unfold handle
    dsimp only
    cases parsed : s.parse payload with
    | mk outcome s₁ =>
      rw [parsed] at named alike
      cases outcome with
      | error response => contradiction
      | ok request =>
        cases aim : target request with
        | error response => exact ⟨response, s₁, by simp only [aim], alike⟩
        | ok pair => simp [aim, Except.isOk, Except.toBool] at named

theorem callJournal (s : Site) (now : String) (args : Arguments) (tool : Tool) :
    (s.call now args tool).2.server.journal = s.server.journal := by
  cases tool with
  | scanWorkspace =>
    unfold call scanWorkspaceTool
    dsimp only
    split <;> rfl
  | scanFiles =>
    unfold call scanFilesTool
    dsimp only
    split <;> rfl
  | clear =>
    rcases clearToolAlike s now args with alike | alike
    · exact alike.journal
    · exact alike.journal
  | bookmark =>
    unfold call bookmarkTool
    dsimp only
    split
    · split <;> rfl
    · rfl
  | exclude =>
    unfold call excludeTool
    dsimp only
    split
    · rfl
    · split <;> rfl
  | exportFindings =>
    unfold call exportTool
    dsimp only
    split
    · rfl
    · exact (currentFindingsAlike s now).journal
  | status => rfl
  | insertDump => rfl
  | bookmarks => rfl
  | auditLog => rfl

theorem behindJournal (s : Site) (now : String) (line : List Char) :
    (s.behind now line).server.journal = s.server.journal := by
  unfold behind
  split
  · rfl
  · rfl
  · rename_i payload _
    have parsed := (parseAlike s payload).journal
    split
    · rename_i outcome
      rw [outcome] at parsed
      exact parsed
    · rename_i request s₁ outcome
      rw [outcome] at parsed
      split
      · exact parsed
      · rename_i tool args aim
        rw [← parsed]
        unfold dispatch
        cases toolRegistry.find tool with
        | error fault => rfl
        | ok found =>
          have called := callJournal s₁ now args found
          dsimp only
          split
          · rename_i outcome
            rw [outcome] at called
            exact called
          · rename_i outcome
            rw [outcome] at called
            exact called

end

/-- Lines are answered one after the other: each that is not blank by a response, of which an event tells
that is appended to the journal behind the call. A misaddressed line gets its response and no event. -/
inductive Answered (journal : AbsPath) (now : String) :
    Site → List (List Char) → List Response → List Journal.Event → Site → Prop where
  | done (s : Site) : Answered journal now s [] [] [] s
  | blank {s s' : Site} {raw : List Char} {rest : List (List Char)} {responses : List Response}
      {events : List Journal.Event} (empty : Text.strip raw = [])
      (later : Answered journal now s rest responses events s') :
      Answered journal now s (raw :: rest) responses events s'
  | noted {s s₁ s' : Site} {raw : List Char} {rest : List (List Char)} {response : Response}
      {responses : List Response} {event : Journal.Event} {events : List Journal.Event}
      (filled : Text.strip raw ≠ []) (addressed : misaddressed (Text.strip raw) = false)
      (handled : s.handleLine now (Text.strip raw) = (.ok response, s₁)) (tells : Tells event response)
      (appended : Appended journal event (s.behind now (Text.strip raw)).disk s₁.disk)
      (later : Answered journal now s₁ rest responses events s') :
      Answered journal now s (raw :: rest) (response :: responses) (event :: events) s'
  | unnoted {s s₁ s' : Site} {raw : List Char} {rest : List (List Char)} {response : Response}
      {responses : List Response} {events : List Journal.Event} (filled : Text.strip raw ≠ [])
      (unaddressed : misaddressed (Text.strip raw) = true)
      (handled : s.handleLine now (Text.strip raw) = (.ok response, s₁)) (untouched : s₁.disk = s.disk)
      (later : Answered journal now s₁ rest responses events s') :
      Answered journal now s (raw :: rest) (response :: responses) events s'

def Writes (s : Site) (now : String) : List (List Char) → Prop
  | [] => True
  | raw :: rest =>
      if (Text.strip raw).isEmpty then s.Writes now rest
      else
        (misaddressed (Text.strip raw) = false → (s.behind now (Text.strip raw)).Writable) ∧
          (s.handleLine now (Text.strip raw)).2.Writes now rest

def Undisturbed (journal : AbsPath) (s : Site) (now : String) : List (List Char) → Prop
  | [] => True
  | raw :: rest =>
      if (Text.strip raw).isEmpty then s.Undisturbed journal now rest
      else
        (s.behind now (Text.strip raw)).disk.bytesAt journal = s.disk.bytesAt journal ∧
          (s.handleLine now (Text.strip raw)).2.Undisturbed journal now rest

theorem serveLinesAnswered {s : Site} {now : String} {raws : List (List Char)} (done : List Response)
    (short : ∀ raw ∈ raws, overlong (Text.strip raw) = false) (writes : s.Writes now raws) :
    ∃ responses events s', s.serveLines now done raws = (done.reverse ++ responses, .ok (), s') ∧
      Answered s.server.journal now s raws responses events s' := by
  induction raws generalizing s done with
  | nil => exact ⟨[], [], s, by simp [serveLines], .done s⟩
  | cons raw rest ih =>
    obtain ⟨here, later⟩ := List.forall_mem_cons.mp short
    unfold serveLines
    unfold Writes at writes
    dsimp only
    split
    · rename_i empty
      rw [if_pos empty] at writes
      obtain ⟨responses, events, s', served, answered⟩ := ih done later writes
      exact ⟨responses, events, s', served, .blank (List.isEmpty_iff.mp empty) answered⟩
    · rename_i some
      rw [if_neg some] at writes
      obtain ⟨writable, writes⟩ := writes
      have filled : Text.strip raw ≠ [] := fun empty => some (List.isEmpty_iff.mpr empty)
      have journal := behindJournal s now (Text.strip raw)
      cases addressed : misaddressed (Text.strip raw) with
      | false =>
        obtain ⟨response, event, s₁, handled, tells, appended, server⟩ :=
          handleLineNoted here addressed (writable addressed)
        rw [handled] at writes ⊢
        obtain ⟨responses, events, s', served, answered⟩ := ih (response :: done) later writes
        rw [server, journal] at answered
        rw [journal] at appended
        refine ⟨response :: responses, event :: events, s', ?_,
          .noted filled addressed handled tells appended answered⟩
        simpa using served
      | true =>
        obtain ⟨response, s₁, handled, alike⟩ := handleLineUnnoted s now addressed
        rw [handled] at writes ⊢
        obtain ⟨responses, events, s', served, answered⟩ := ih (response :: done) later writes
        rw [alike.journal] at answered
        refine ⟨response :: responses, events, s', ?_, .unnoted filled addressed handled alike.disk answered⟩
        simpa using served

section
variable {journal : AbsPath} {s s' : Site} {now : String} {raws : List (List Char)}
variable {responses : List Response} {events : List Journal.Event}

theorem Answered.eachOnce (answered : Answered journal now s raws responses events s') :
    responses.length = raws.countP (fun raw => !(Text.strip raw).isEmpty) := by
  induction answered with
  | done s => rfl
  | blank empty later ih => simpa [empty] using ih
  | noted filled addressed handled tells appended later ih => simpa [filled] using ih
  | unnoted filled unaddressed handled untouched later ih => simpa [filled] using ih

theorem Answered.noteCount (answered : Answered journal now s raws responses events s') :
    events.length + raws.countP (fun raw => misaddressed (Text.strip raw)) = responses.length := by
  induction answered with
  | done s => rfl
  | blank empty later ih =>
    have plain : misaddressed [] = false := by decide +kernel
    simpa [empty, plain] using ih
  | noted filled addressed handled tells appended later ih =>
    simp only [List.length_cons, List.countP_cons, addressed, Bool.false_eq_true, if_false]
    omega
  | unnoted filled unaddressed handled untouched later ih =>
    simp only [List.length_cons, List.countP_cons, unaddressed, if_true]
    omega

theorem Answered.tellsIff (answered : Answered journal now s raws responses events s') :
    List.Forall₂ Tells events responses ↔ ∀ raw ∈ raws, misaddressed (Text.strip raw) = false := by
  constructor
  · intro tells
    have counts := answered.noteCount
    rw [tells.length_eq] at counts
    have none : raws.countP (fun raw => misaddressed (Text.strip raw)) = 0 := by omega
    simpa using List.countP_eq_zero.mp none
  · intro addressed
    induction answered with
    | done s => exact .nil
    | blank empty later ih => exact ih (List.forall_mem_cons.mp addressed).2
    | noted filled here handled tells appended later ih =>
      exact .cons tells (ih (List.forall_mem_cons.mp addressed).2)
    | unnoted filled unaddressed handled untouched later ih =>
      rw [(List.forall_mem_cons.mp addressed).1] at unaddressed
      contradiction

theorem Answered.grows (answered : Answered journal now s raws responses events s')
    (undisturbed : s.Undisturbed journal now raws) :
    s'.disk.bytesAt journal = s.disk.bytesAt journal ++ (String.join (events.map Journal.lineOfEvent)).toUTF8 := by
  induction answered with
  | done s => simp
  | blank empty later ih =>
    unfold Undisturbed at undisturbed
    rw [if_pos (by simp [empty])] at undisturbed
    exact ih undisturbed
  | noted filled addressed handled tells appended later ih =>
    unfold Undisturbed at undisturbed
    rw [if_neg (by simp [filled]), handled] at undisturbed
    rw [ih undisturbed.2, appended.bytes, undisturbed.1]
    simp [String.join_cons, ByteArray.append_assoc]
  | unnoted filled unaddressed handled untouched later ih =>
    unfold Undisturbed at undisturbed
    rw [if_neg (by simp [filled]), handled] at undisturbed
    rw [ih undisturbed.2, untouched]

end

theorem eachLineJournaledIff {s : Site} {now : String} {raws : List (List Char)}
    (short : ∀ raw ∈ raws, overlong (Text.strip raw) = false) (writes : s.Writes now raws) :
    ∃ responses events s', s.serveLines now [] raws = (responses, .ok (), s') ∧
      Answered s.server.journal now s raws responses events s' ∧
      responses.length = raws.countP (fun raw => !(Text.strip raw).isEmpty) ∧
      (∀ event ∈ events, ∃ body : List Char, '\n' ∉ body ∧
        (Journal.lineOfEvent event).toList = body ++ ['\n']) ∧
      (List.Forall₂ Tells events responses ↔ ∀ raw ∈ raws, misaddressed (Text.strip raw) = false) ∧
      (s.Undisturbed s.server.journal now raws → s'.disk.bytesAt s.server.journal =
        s.disk.bytesAt s.server.journal ++ (String.join (events.map Journal.lineOfEvent)).toUTF8) := by
  obtain ⟨responses, events, s', served, answered⟩ := serveLinesAnswered [] short writes
  exact ⟨responses, events, s', served, answered, answered.eachOnce,
    fun event _ => Journal.lineInline event, answered.tellsIff, answered.grows⟩

theorem writableIn {s : Site} (folder : s.disk.isDir s.server.journal.parent = true)
    (free : s.disk.Free s.server.journal) : s.Writable :=
  fun event => Journal.appendable folder free event

theorem writesLine {s : Site} {now : String} {raw : List Char} {rest : List (List Char)}
    (filled : (Text.strip raw).isEmpty = false) (writable : (s.behind now (Text.strip raw)).Writable)
    (later : (s.handleLine now (Text.strip raw)).2.Writes now rest) : s.Writes now (raw :: rest) := by
  unfold Writes
  rw [if_neg (by simp [filled])]
  exact ⟨fun _ => writable, later⟩

def statusAndNonsense : List (List Char) :=
  ["\x7b\"id\": \"a\", \"method\": \"debug.status\"\x7d".toList, "nonsense".toList]

theorem statusAndNonsenseJournaled :
    ∃ responses events s', twoDumps.serveLines "t" [] statusAndNonsense = (responses, .ok (), s') ∧
      Answered twoDumps.server.journal "t" twoDumps statusAndNonsense responses events s' ∧
      responses.length = 2 ∧ List.Forall₂ Tells events responses := by
  have writes : twoDumps.Writes "t" statusAndNonsense :=
    writesLine (by decide +kernel) (writableIn (by decide +kernel) (by decide +kernel))
      (writesLine (by decide +kernel) (writableIn (by decide +kernel) (by decide +kernel)) trivial)
  obtain ⟨responses, events, s', served, answered, counted, -, tells, -⟩ :=
    eachLineJournaledIff (by decide +kernel) writes
  have two : statusAndNonsense.countP (fun raw => !(Text.strip raw).isEmpty) = 2 := by decide +kernel
  exact ⟨responses, events, s', served, answered, counted.trans two, tells.mpr (by decide +kernel)⟩

def toolUnnamed : List Char :=
  "\x7b\"id\": \"a\", \"method\": \"tools/call\", \"params\": \x7b\x7d\x7d".toList

theorem toolUnnamedUnnoted :
    overlong toolUnnamed = false ∧ (twoDumps.behind "t" toolUnnamed).Writable ∧
      (twoDumps.serveLines "t" [] [toolUnnamed]).1.length = 1 ∧
      (twoDumps.serveLines "t" [] [toolUnnamed]).2.1 = .ok () ∧
      ((twoDumps.serveLines "t" [] [toolUnnamed]).2.2.disk.get? twoDumps.server.journal).isNone = true := by
  refine ⟨by decide +kernel, writableIn (by decide +kernel) (by decide +kernel), ?_⟩
  decide +kernel

end Site
end DebugSweep
