import DebugSweep.Proofs.Grammar
import DebugSweep.Proofs.Journaling
import DebugSweep.Proofs.TornLines

/-! What a journal gives back. Main statement: an event that is appended to a journal is the last record that is
read, unless the journal ended inside a line; then it is never read. -/
namespace DebugSweep.Text

theorem endingsAppend {back : List Char} (starts : back.head? ≠ some '\n') (front : List Char) (after : Bool) :
    plainEndings [] after (front ++ back) = plainEndings [] after front ++ normalizeEndings back := by
  induction front generalizing after with
  | nil =>
    cases back with
    | nil => rfl
    | cons c back =>
      have other : c ≠ '\n' := fun same => starts (by rw [same]; rfl)
      simp [plainEndings, normalizeEndings, other]
  | cons c front ih =>
    rw [List.cons_append, plainEndings, plainEndings]
    split
    · rw [endingsDone, ih, endingsDone ['\n'] front, List.append_assoc]
    · split
      · exact ih false
      · rw [endingsDone, ih, endingsDone [c] front, List.append_assoc]

theorem encodedDecoded {bytes : ByteArray} {text : String} (valid : decode? bytes = some text) : text.toUTF8 = bytes := by
  unfold decode? String.fromUTF8? at valid
  split at valid
  · cases valid
    rfl
  · contradiction

theorem unlinesLast (parts : List (List Char)) (last more : List Char) :
    unlines (parts ++ [last]) ++ more ++ ['\n'] = unlines (parts ++ [last ++ more, []]) := by
  induction parts with
  | nil =>
    rw [List.nil_append, List.nil_append, unlinesOne, unlinesCons, unlinesOne]
  | cons part parts ih =>
    obtain ⟨next, rest, same⟩ := List.exists_cons_of_ne_nil (show parts ++ [last] ≠ [] by simp)
    obtain ⟨next', rest', same'⟩ := List.exists_cons_of_ne_nil (show parts ++ [last ++ more, []] ≠ [] by simp)
    rw [same, same'] at ih
    rw [List.cons_append, List.cons_append, same, same', unlinesCons, unlinesCons, ← ih]
    simp

end DebugSweep.Text

namespace DebugSweep.Journal
open Text Json

def linesOf (text : String) : List (List Char) := lines (normalizeEndings text.toList)

def wholeLines (text : String) : List (List Char) := (linesOf text).dropLast

/-- What stands behind the last end of a line: nothing, unless a write was cut off. -/
def tornLine (text : String) : List Char := (linesOf text).getLastD []

theorem linesParted (text : String) : linesOf text = wholeLines text ++ [tornLine text] := by
  have held : linesOf text ≠ [] := Clear.linesHeld _
  unfold wholeLines tornLine
  rw [List.getLastD_eq_getLast?, List.getLast?_eq_some_getLast held, Option.getD_some, List.dropLast_append_getLast held]

theorem linesAppended (text : String) {body : String} (shown : Shown body.toList) (filled : body.toList ≠ []) :
    linesOf (text ++ body ++ "\n") = wholeLines text ++ [tornLine text ++ body.toList, []] := by
  have starts : (body.toList ++ ['\n']).head? ≠ some '\n' := by
    rw [List.head?_append_of_ne_nil _ filled]
    exact fun first => shown.free (by decide) (List.mem_of_mem_head? first)
  have plain : normalizeEndings (body.toList ++ ['\n']) = body.toList ++ ['\n'] :=
    normalizePlain (shown.free (by decide)) ['\n']
  have known : ∀ line ∈ linesOf text, '\n' ∉ line := fun line => Clear.lineClosed
  have closed : ∀ line ∈ wholeLines text ++ [tornLine text ++ body.toList, []], '\n' ∉ line := by
    rw [linesParted, List.forall_mem_append, List.forall_mem_singleton] at known
    rw [List.forall_mem_append, List.forall_mem_cons, List.forall_mem_singleton, List.mem_append, not_or]
    exact ⟨known.1, ⟨known.2, shown.free (by decide)⟩, List.not_mem_nil⟩
  have before : normalizeEndings text.toList = unlines (wholeLines text ++ [tornLine text]) := by
    rw [← linesParted]
    exact (Clear.unlinesLines _).symm
  have after : normalizeEndings (text ++ body ++ "\n").toList =
      unlines (wholeLines text ++ [tornLine text ++ body.toList, []]) := by
    have spelled : (text ++ body ++ "\n").toList = text.toList ++ (body.toList ++ ['\n']) := by simp
    have joined := endingsAppend starts text.toList false
    rw [← normalizeEndings, ← normalizeEndings, plain, before] at joined
    rw [spelled, joined, ← List.append_assoc, unlinesLast]
  rw [linesOf, after, Clear.linesUnlines closed, if_neg (by simp)]

theorem recordsAppend (done : List Value) (front back : List (List Char)) :
    records done (front ++ back) = records done front >>= fun earlier => records earlier.reverse back := by
  induction front generalizing done with
  | nil =>
    change records done back = records done.reverse.reverse back
    rw [List.reverse_reverse]
  | cons line front ih =>
    rw [List.cons_append, records, records]
    split
    · exact ih done
    · split
      · exact ih _
      · exact ih done
      · exact ih done
      · rfl

theorem orderNames (fields : List (String × Value)) : (inOrder fields).map Prod.fst = sortTexts (fields.map Prod.fst) := by
  have sorted := List.map_mergeSort (r := fun a b => decide (a.1 ≤ b.1)) (s := fun a b => decide (a ≤ b)) (f := Prod.fst)
    (l := fields.map (fun field => (field.1, sortFields field.2))) fun a _ b _ => rfl
  rw [List.map_map] at sorted
  exact sorted

def eventNames : List String :=
  ["timestamp", "request_id", "tool", "ok", "blocked", "error_code", "metadata", "duration_ms"]

theorem eventNamesSorted : sortTexts eventNames =
    ["blocked", "duration_ms", "error_code", "metadata", "ok", "request_id", "timestamp", "tool"] := by
  have perm : eventNames.Perm
      ["blocked", "duration_ms", "error_code", "metadata", "ok", "request_id", "timestamp", "tool"] := by decide
  rw [sortTextsIff.mpr perm]
  exact List.mergeSort_of_pairwise (by decide)

theorem eventRecord (e : Event) : ∃ fields, e.toValue = .record fields ∧ fields.map Prod.fst = eventNames := ⟨_, rfl, rfl⟩

theorem eventSorted (e : Event) : ∃ value fields, sortFields e.toValue = .record (("blocked", value) :: fields) := by
  obtain ⟨fields, same, names⟩ := eventRecord e
  have order := orderNames fields
  rw [names, eventNamesSorted] at order
  rw [same, sortRecord]
  generalize inOrder fields = ordered at order ⊢
  cases ordered with
  | nil => contradiction
  | cons field ordered =>
    obtain ⟨name, value⟩ := field
    obtain ⟨rfl, -⟩ := List.cons.inj order
    exact ⟨value, ordered, rfl⟩

def eventChars (e : Event) : List Char := (Json.write Style.line e.toValue).toList

theorem eventOnLine (e : Event) : eventChars e = onLine (sortFields e.toValue) := by
  rw [onLine]
  rfl

theorem eventStarts (e : Event) : ∃ more, eventChars e = '\x7b' :: '"' :: 'b' :: more := by
  obtain ⟨value, fields, same⟩ := eventSorted e
  have name : "blocked".toList.flatMap (fun c => (charText true c).toList) = "blocked".toList := by decide
  rw [eventOnLine, same, recordOnLine, fieldChars, stringChars, name]
  exact ⟨_, rfl⟩

theorem eventEnds (e : Event) : ∃ front, eventChars e = front ++ ['\x7d'] := by
  obtain ⟨value, fields, same⟩ := eventSorted e
  rw [eventOnLine, same, recordOnLine]
  exact ⟨'\x7b' :: (fieldChars ("blocked", value) ++ nextFields fields), by simp⟩

theorem stripJoined (torn : List Char) (e : Event) : strip (torn ++ eventChars e) = dropBlanks torn ++ eventChars e := by
  obtain ⟨more, starts⟩ := eventStarts e
  obtain ⟨front, ends⟩ := eventEnds e
  have behind : dropBlanks (torn ++ eventChars e) = dropBlanks torn ++ eventChars e := by
    rw [dropBlanks, List.dropWhile_append]
    split
    · rename_i blank
      have none : dropBlanks torn = [] := List.isEmpty_iff.mp blank
      rw [none, starts]
      rfl
    · rfl
  rw [strip, behind, dropBlanksEnd, ends, ← List.append_assoc, List.reverse_append, List.reverse_singleton,
    List.singleton_append, List.dropWhile_cons_of_neg (by decide), List.reverse_cons, List.reverse_reverse]

theorem spaceBlank {c : Char} (space : isSpace c = true) : isBlank c = true := by
  have listed : c ∈ [' ', '\n', '\t', '\r'] := by simpa [isSpace, or_assoc] using space
  have each : ∀ c ∈ [' ', '\n', '\t', '\r'], isBlank c = true := by simp [isBlank]
  exact each c listed

theorem skipDropped (torn : List Char) {more : List Char} (filled : dropBlanks torn ≠ []) :
    skipSpace (dropBlanks torn ++ more) = dropBlanks torn ++ more := by
  obtain ⟨c, rest, same⟩ := List.exists_cons_of_ne_nil filled
  have visible : ¬ isBlank c = true := by
    have first := List.head?_dropWhile_not isBlank torn
    rw [← dropBlanks, same] at first
    simpa using first
  rw [same]
  exact List.dropWhile_cons_of_neg fun space => visible (spaceBlank space)

theorem tornNoRecord {e : Event} (storable : Storable e.toValue) {torn : List Char} (filled : dropBlanks torn ≠ [])
    (fields : List (String × Value)) :
    Json.read (String.ofList (dropBlanks torn ++ eventChars e)) ≠ .ok (.record fields) := by
  intro read
  obtain ⟨more, starts⟩ := eventStarts e
  obtain ⟨value, others, same⟩ := eventSorted e
  have alone := storable.sorted.readsBack (eventChars e).length [] (by rw [eventOnLine]) (by rintro c ⟨⟩)
  rw [List.append_nil, ← eventOnLine, same] at alone
  rw [Json.read, String.toList_ofList, skipDropped torn filled] at read
  split at read
  · contradiction
  · rename_i value' rest here
    split at read
    · rename_i blank
      cases read
      exact tornUnread filled starts (by decide) alone blank here
    · contradiction

theorem recordRead {e : Event} (storable : Storable e.toValue) {torn : List Char} (blank : allBlank torn = true)
    (done : List Value) :
    records done [torn ++ eventChars e, []] = .ok (done.reverse ++ [sortFields e.toValue]) := by
  obtain ⟨value, fields, same⟩ := eventSorted e
  have empty : dropBlanks torn = [] := (Edit.blankIff torn).mp blank
  have read : Json.read (String.ofList (eventChars e)) = .ok (sortFields e.toValue) := by
    rw [eventOnLine]
    exact storable.sorted.read
  have filled : (eventChars e).isEmpty = false := by
    obtain ⟨more, starts⟩ := eventStarts e
    rw [starts]
    rfl
  have last (done : List Value) : records done [[]] = .ok done.reverse := rfl
  rw [same] at read ⊢
  rw [records, stripJoined, empty, List.nil_append, filled, if_neg Bool.false_ne_true]
  rw [read]
  dsimp only
  rw [last, List.reverse_cons]

theorem recordLost {e : Event} (storable : Storable e.toValue) {torn : List Char} (filled : ¬ allBlank torn = true)
    (done : List Value) : records done [torn ++ eventChars e, []] = .ok done.reverse ∨
      ∃ digits, records done [torn ++ eventChars e, []] = .error (.invalid (.longNumber digits)) := by
  have some : dropBlanks torn ≠ [] := fun empty => filled ((Edit.blankIff torn).mpr empty)
  have noRecord := tornNoRecord storable some
  have last (done : List Value) : records done [[]] = .ok done.reverse := rfl
  rw [records, stripJoined]
  split
  · exact .inl (last done)
  · split
    · rename_i fields read
      exact absurd read (noRecord fields)
    · exact .inl (last done)
    · exact .inl (last done)
    · exact .inr ⟨_, rfl⟩

section
variable {d d' : Disk} {p : AbsPath} {e : Event} {text : String}

theorem appendedText (valid : decode? (d.bytesAt p) = some text) (done : append d p e = .ok d') :
    (d'.get? p).isNone = false ∧ Files.readText d' p = .ok (text ++ Json.write Style.line e.toValue ++ "\n") := by
  obtain ⟨-, content, mtime, file⟩ := Disk.appendedFile (mapErrorOk done)
  have bytes : content = (text ++ lineOfEvent e).toUTF8 := by
    have whole := (appendedLine done).1
    rw [← encodedDecoded valid] at whole
    have here : d'.bytesAt p = content := by simp [Disk.bytesAt, Engine.contentOf?, file]
    rw [← here, whole]
    exact String.toByteArray_append.symm
  refine ⟨by rw [file]; rfl, ?_⟩
  simp only [Files.readText, Disk.read, Disk.find, file, bytes, Clear.decodeEncoded, Except.mapError, bind, Except.bind,
    pure, Except.pure, lineOfEvent, String.append_assoc]

theorem readAppended (valid : decode? (d.bytesAt p) = some text) (done : append d p e = .ok d') {limit : Int}
    (some : 1 ≤ limit) : read d' p none limit none =
      (records [] (wholeLines text) >>= fun earlier =>
        (records earlier.reverse [tornLine text ++ eventChars e, []])).map (lastOnes limit.toNat) := by
  obtain ⟨there, content⟩ := appendedText valid done
  have shown := Json.writePrinted e.toValue
  have filled : (Json.write Style.line e.toValue).toList ≠ [] := by
    obtain ⟨more, starts⟩ := eventStarts e
    change eventChars e ≠ []
    rw [starts]
    exact List.cons_ne_nil _ _
  have all (items : List Value) : items.filter (wanted none none) = items := List.filter_eq_self.mpr fun _ _ => rfl
  rw [← recordsAppend, eventChars, ← linesAppended text shown filled]
  unfold read
  rw [there, Bool.or_false, if_neg (by simpa using some), content]
  change (records [] (linesOf _) >>= fun found => _) = _
  cases records [] (linesOf (text ++ Json.write Style.line e.toValue ++ "\n")) with
  | error fault => rfl
  | ok found => exact congrArg (fun kept => Except.ok (lastOnes limit.toNat kept)) (all found)

theorem recordsFault {done : List Value} {parts : List (List Char)} {fault : Fault}
    (failed : records done parts = .error fault) : ∃ digits, fault = .invalid (.longNumber digits) := by
  induction parts generalizing done with
  | nil => contradiction
  | cons line parts ih =>
    rw [records] at failed
    split at failed
    · exact ih failed
    · split at failed
      · exact ih failed
      · exact ih failed
      · exact ih failed
      · cases failed
        exact ⟨_, rfl⟩

theorem lastStays (items : List Value) (v : Value) {limit : Int} (some : 1 ≤ limit) :
    (lastOnes limit.toNat (items ++ [v])).getLast? = Option.some v := by
  have kept : limit.toNat ≠ 0 := by omega
  rw [lastOnes, List.length_append, List.length_singleton, List.drop_append_of_le_length (by omega), List.getLast?_concat]

theorem appendedReadBack (storable : Storable e.toValue) (valid : decode? (d.bytesAt p) = some text)
    (done : append d p e = .ok d') {limit : Int} (some : 1 ≤ limit) :
    (∀ name, (sortFields e.toValue).field? name = (e.toValue.field? name).map sortFields) ∧
    (∀ fault, records [] (wholeLines text) = .error fault →
      (∃ digits, fault = .invalid (.longNumber digits)) ∧ read d' p none limit none = .error fault) ∧
    ∀ earlier, records [] (wholeLines text) = .ok earlier →
      (allBlank (tornLine text) = true →
        read d' p none limit none = .ok (lastOnes limit.toNat (earlier ++ [sortFields e.toValue])) ∧
          (lastOnes limit.toNat (earlier ++ [sortFields e.toValue])).getLast? = Option.some (sortFields e.toValue)) ∧
      (allBlank (tornLine text) = false →
        read d' p none limit none = .ok (lastOnes limit.toNat earlier) ∨
          ∃ digits, read d' p none limit none = .error (.invalid (.longNumber digits))) := by
  rw [readAppended valid done some]
  refine ⟨Storable.sortedField storable, fun fault failed => ⟨recordsFault failed, ?_⟩,
    fun earlier known => ⟨fun blank => ⟨?_, lastStays earlier _ some⟩, fun filled => ?_⟩⟩
  · rw [failed]
    rfl
  · rw [known]
    change (records earlier.reverse _).map _ = _
    rw [recordRead storable blank, List.reverse_reverse]
    rfl
  · rw [known]
    change (records earlier.reverse _).map _ = _ ∨ ∃ digits, (records earlier.reverse _).map _ = _
    rcases recordLost storable (Bool.eq_false_iff.mp filled) earlier.reverse with lost | ⟨digits, lost⟩
    · rw [lost, List.reverse_reverse]
      exact .inl rfl
    · rw [lost]
      exact .inr ⟨digits, rfl⟩

end

theorem eventStorable {e : Event} (metadata : Storable (.record e.metadata))
    (short : (Nat.toDigits 10 e.durationMs.natAbs).length ≤ digitLimit) : Storable e.toValue := by
  have cause : Storable (Value.ofText? e.errorCode) := by
    cases e.errorCode with
    | none => exact .null
    | some code => exact .text code
  refine .record (show eventNames.Nodup by decide) ?_
  simp only [List.forall_mem_cons, List.not_mem_nil, false_imp_iff, implies_true, and_true]
  exact ⟨.text _, .text _, .text _, .bool _, .bool _, cause, metadata, .int short⟩

def journalPath : AbsPath := ⟨[fileName]⟩

def journalWith (text : String) : Disk := { nodes := [(journalPath, .file text.toUTF8 0)] }

def statusEvent : Event where
  timestamp := "2026-01-02T00:00:00.000Z"
  requestId := "r2"
  tool := "debug.status"
  ok := true
  blocked := false
  errorCode := none
  metadata := [("limit", .real 0x3ff8000000000000)]

theorem statusStorable : Storable statusEvent.toValue := by
  have limit : Storable (.real 0x3ff8000000000000) := .real (.inl (by decide))
  refine eventStorable (.record (by decide) ?_) (by decide)
  exact List.forall_mem_singleton.mpr limit

theorem bytesThere (text : String) : decode? ((journalWith text).bytesAt journalPath) = some text := by
  have there : (journalWith text).bytesAt journalPath = text.toUTF8 := rfl
  rw [there, Clear.decodeEncoded]

theorem statusReadBack : Storable statusEvent.toValue ∧
    decode? ((journalWith "\x7b\x7d\n").bytesAt journalPath) = some "\x7b\x7d\n" ∧
    ∃ d, append (journalWith "\x7b\x7d\n") journalPath statusEvent = .ok d ∧
      read d journalPath none 50 none = .ok [.record [], sortFields statusEvent.toValue] := by
  obtain ⟨d, done⟩ : ∃ d, append (journalWith "\x7b\x7d\n") journalPath statusEvent = .ok d := ⟨_, rfl⟩
  have known : records [] (wholeLines "\x7b\x7d\n") = .ok [.record []] := rfl
  obtain ⟨-, -, whole⟩ := appendedReadBack statusStorable (bytesThere _) done (by decide : (1 : Int) ≤ 50)
  obtain ⟨recalled, -⟩ := whole _ known
  exact ⟨statusStorable, bytesThere _, d, done, (recalled (by decide)).1⟩

def cutOff : String := "\x7b"

theorem braceMalformed (more : List Char) : Json.read (String.ofList ('\x7b' :: '\x7b' :: more)) = .error .malformed := by
  have stops (fuel : Nat) : readValue (fuel + 2) ('\x7b' :: '\x7b' :: more) = .error .malformed := rfl
  have start : skipSpace ('\x7b' :: '\x7b' :: more) = '\x7b' :: '\x7b' :: more := rfl
  rw [Json.read, String.toList_ofList, start, stops]

theorem cutOffSwallows : Storable statusEvent.toValue ∧ decode? ((journalWith cutOff).bytesAt journalPath) = some cutOff ∧
    ∃ d, append (journalWith cutOff) journalPath statusEvent = .ok d ∧ read d journalPath none 50 none = .ok [] := by
  obtain ⟨d, done⟩ : ∃ d, append (journalWith cutOff) journalPath statusEvent = .ok d := ⟨_, rfl⟩
  obtain ⟨more, starts⟩ := eventStarts statusEvent
  have whole : wholeLines cutOff = [] := rfl
  have torn : tornLine cutOff = ['\x7b'] := rfl
  have stripped := stripJoined ['\x7b'] statusEvent
  refine ⟨statusStorable, bytesThere _, d, done, ?_⟩
  rw [readAppended (bytesThere _) done (by decide), whole, torn]
  change (records [] [['\x7b'] ++ eventChars statusEvent, []]).map _ = _
  have filled : (dropBlanks ['\x7b'] ++ '\x7b' :: '"' :: 'b' :: more).isEmpty = false := rfl
  have read : Json.read (String.ofList (dropBlanks ['\x7b'] ++ '\x7b' :: '"' :: 'b' :: more)) = .error .malformed :=
    braceMalformed ('"' :: 'b' :: more)
  rw [records, stripped, starts, filled, read]
  rfl

end DebugSweep.Journal
