import DebugSweep.Proofs.Recall
import Mathlib.Data.List.Forall2

/-! The newest events of a journal. Main statement: a journal that was begun with its first event holds one line for each
event, and a reading gives the last of those events that it asks for, up to its limit, as they were appended. -/
namespace DebugSweep

/-- Values that differ in nothing but the order in which their records hold their fields. -/
inductive Value.Same : Value → Value → Prop where
  | refl (v : Value) : Same v v
  | list {items items' : List Value} (each : List.Forall₂ Same items items') : Same (.list items) (.list items')
  | record {fields fields' ordered : List (String × Value)} (order : fields'.Perm ordered)
      (names : fields.map Prod.fst = ordered.map Prod.fst)
      (each : List.Forall₂ Same (fields.map Prod.snd) (ordered.map Prod.snd)) : Same (.record fields) (.record fields')

namespace Json

mutual
theorem sortedSame (v : Value) : v.Same (sortFields v) := by
  match v with
  | .list items =>
    rw [sortFields, sortItemsMap]
    exact .list (sortedItemsSame items)
  | .record fields =>
    rw [sortRecord]
    refine .record (orderPerm fields) (by simp [Function.comp_def]) ?_
    rw [List.map_map]
    exact sortedFieldsSame fields
  | .null => exact .refl _
  | .bool _ => exact .refl _
  | .int _ => exact .refl _
  | .real _ => exact .refl _
  | .text _ => exact .refl _
  | .moment _ => exact .refl _

theorem sortedItemsSame (items : List Value) : List.Forall₂ Value.Same items (items.map sortFields) := by
  match items with
  | [] => exact .nil
  | item :: items => exact .cons (sortedSame item) (sortedItemsSame items)

theorem sortedFieldsSame (fields : List (String × Value)) :
    List.Forall₂ Value.Same (fields.map Prod.snd) (fields.map (fun field => sortFields field.2)) := by
  match fields with
  | [] => exact .nil
  | (_, value) :: fields => exact .cons (sortedSame value) (sortedFieldsSame fields)
end

end Json

namespace Journal
open Text Json

def appendAll (d : Disk) (p : AbsPath) (events : List Event) : Except Fault Disk :=
  events.foldlM (fun d e => append d p e) d

def Event.Asked (since tool : Option String) (e : Event) : Prop :=
  (∀ s ∈ since, ¬ e.timestamp < s) ∧ ∀ t ∈ tool, e.tool = t

instance (since tool : Option String) (e : Event) : Decidable (e.Asked since tool) := inferInstanceAs (Decidable (_ ∧ _))

def Event.ReadsBack (e : Event) : Prop := Json.read (Json.write Style.line e.toValue) = .ok (sortFields e.toValue)

theorem storableReadsBack {e : Event} (storable : Storable e.toValue) : e.ReadsBack := by
  have read := storable.sorted.read
  rwa [← eventOnLine, eventChars, String.ofList_toList] at read

theorem eventField (e : Event) (name : String) :
    (sortFields e.toValue).field? name = (e.toValue.field? name).map sortFields := by
  obtain ⟨fields, same, names⟩ := eventRecord e
  have once : eventNames.Nodup := by decide
  rw [← names] at once
  rw [same, Json.sortedField once]

theorem wantedIff (since tool : Option String) (e : Event) :
    wanted since tool (sortFields e.toValue) = decide (e.Asked since tool) := by
  have stamp : (sortFields e.toValue).field? "timestamp" = some (.text e.timestamp) := eventField e "timestamp"
  have named : (sortFields e.toValue).field? "tool" = some (.text e.tool) := eventField e "tool"
  rw [Bool.eq_iff_iff, decide_eq_true_iff, wanted, Bool.and_eq_true, Event.Asked]
  refine and_congr ?_ ?_
  · cases since with
    | none => simp
    | some s =>
      have kept : stampedSince s (sortFields e.toValue) = decide (s ≤ e.timestamp) := by rw [stampedSince, stamp]
      rw [Option.all_some, kept, decide_eq_true_iff, ← String.not_lt]
      exact ⟨fun late _ same => Option.some.inj same ▸ late, fun late => late s rfl⟩
  · cases tool with
    | none => simp
    | some t => simp [ofTool, named]

theorem recordsNext {e : Event} (back : e.ReadsBack) (done : List Value) (rest : List (List Char)) :
    records done (eventChars e :: rest) = records (sortFields e.toValue :: done) rest := by
  obtain ⟨value, fields, same⟩ := eventSorted e
  have stripped : strip (eventChars e) = eventChars e := stripJoined [] e
  have filled : (eventChars e).isEmpty = false := by
    obtain ⟨more, starts⟩ := eventStarts e
    rw [starts]
    rfl
  have read : Json.read (String.ofList (eventChars e)) = .ok (sortFields e.toValue) := by
    rwa [eventChars, String.ofList_toList]
  rw [same] at read ⊢
  rw [records, stripped, filled, if_neg Bool.false_ne_true, read]

theorem recordsAll {events : List Event} (back : ∀ e ∈ events, e.ReadsBack) (done : List Value) :
    records done (events.map eventChars ++ [[]]) = .ok (done.reverse ++ events.map (fun e => sortFields e.toValue)) := by
  induction events generalizing done with
  | nil =>
    rw [List.map_nil, List.map_nil, List.append_nil]
    rfl
  | cons e events ih =>
    obtain ⟨here, later⟩ := List.forall_mem_cons.mp back
    rw [List.map_cons, List.cons_append, recordsNext here, ih later]
    simp

structure Lined (p : AbsPath) (d : Disk) (events : List Event) (text : String) : Prop where
  decoded : decode? (d.bytesAt p) = some text
  lines : linesOf text = events.map eventChars ++ [[]]
  found : (d.get? p).isNone = true ∧ events = [] ∨ (d.get? p).isNone = false ∧ Files.readText d p = .ok text

section
variable {d d' : Disk} {p : AbsPath} {events : List Event} {text : String}

theorem absentLined (absent : d.get? p = none) : Lined p d [] "" where
  decoded := by
    have none : d.bytesAt p = ByteArray.empty := by simp [Disk.bytesAt, Engine.contentOf?, absent]
    rw [none]
    rfl
  lines := rfl
  found := .inl ⟨by rw [absent]; rfl, rfl⟩

theorem Lined.append {e : Event} (lined : Lined p d events text) (done : append d p e = .ok d') :
    Lined p d' (events ++ [e]) (text ++ Json.write Style.line e.toValue ++ "\n") where
  decoded := by
    have bytes : d'.bytesAt p = (text ++ lineOfEvent e).toUTF8 := by
      rw [(appendedLine done).1, ← encodedDecoded lined.decoded]
      exact String.toByteArray_append.symm
    rw [bytes, Clear.decodeEncoded, lineOfEvent, String.append_assoc]
  lines := by
    have filled : (Json.write Style.line e.toValue).toList ≠ [] := by
      obtain ⟨more, starts⟩ := eventStarts e
      change eventChars e ≠ []
      rw [starts]
      exact List.cons_ne_nil _ _
    have whole : wholeLines text = events.map eventChars := by
      rw [wholeLines, lined.lines, List.dropLast_concat]
    have torn : tornLine text = [] := by
      rw [tornLine, lined.lines, List.getLastD_concat]
    rw [linesAppended text (Json.writePrinted e.toValue) filled, whole, torn, List.map_append]
    simp [eventChars]
  found := .inr (appendedText lined.decoded done)

-- The induction is on the events; the events before them are lined already.
theorem Lined.appendAll {done : List Event} (lined : Lined p d done text) (appended : appendAll d p events = .ok d') :
    ∃ text', Lined p d' (done ++ events) text' := by
  induction events generalizing d done text with
  | nil =>
    cases appended
    exact ⟨text, by rwa [List.append_nil]⟩
  | cons e events ih =>
    obtain ⟨between, first, later⟩ := bindOkIff.mp appended
    obtain ⟨text', whole⟩ := ih (lined.append first) later
    exact ⟨text', by rwa [List.append_assoc] at whole⟩

theorem Lined.read (lined : Lined p d events text) (back : ∀ e ∈ events, e.ReadsBack) (since tool : Option String)
    {limit : Int} (some : 1 ≤ limit) : read d p since limit tool =
      .ok ((lastOnes limit.toNat (events.filter (fun e => e.Asked since tool))).map (fun e => sortFields e.toValue)) := by
  have positive : ¬ (decide (limit < 1) = true) := by simpa using some
  unfold Journal.read
  rcases lined.found with ⟨absent, rfl⟩ | ⟨there, content⟩
  · rw [absent, Bool.or_true, if_pos rfl, List.filter_nil, lastOnes, List.drop_nil]
    rfl
  · have all : records [] (Text.lines (normalizeEndings text.toList)) = .ok (events.map (fun e => sortFields e.toValue)) := by
      rw [← linesOf, lined.lines, recordsAll back]
      rfl
    have kept : (events.map (fun e => sortFields e.toValue)).filter (wanted since tool) =
        (events.filter (fun e => e.Asked since tool)).map (fun e => sortFields e.toValue) := by
      rw [List.filter_map]
      simp only [Function.comp_def, wantedIff]
    rw [there, Bool.or_false, if_neg positive, content]
    change records [] (Text.lines (normalizeEndings text.toList)) >>= _ = _
    rw [all]
    change Except.ok (lastOnes limit.toNat _) = _
    rw [kept, lastOnes, lastOnes, List.map_drop, List.length_map]

theorem appendAllDone (folder : d.isDir p.parent = true) (free : d.Free p) (events : List Event) :
    ∃ d', appendAll d p events = .ok d' := by
  induction events generalizing d with
  | nil => exact ⟨d, rfl⟩
  | cons e events ih =>
    obtain ⟨between, first⟩ := appendable folder free e
    obtain ⟨deep, content, mtime, file⟩ := Disk.appendedFile (mapErrorOk first)
    have beside : p.parent ≠ p := by
      intro same
      have sizes := congrArg (fun q : AbsPath => q.names.length) same
      have long := List.length_pos_of_ne_nil deep
      simp only [AbsPath.parent, List.length_dropLast] at sizes
      omega
    have folder' : between.isDir p.parent = true := by
      rw [Disk.isDirIff, (appendedLine first).2 _ beside]
      exact Disk.isDirIff.mp folder
    obtain ⟨d', later⟩ := ih folder' (by simp [Disk.Free, file, Node.kind])
    refine ⟨d', ?_⟩
    rw [appendAll, List.foldlM_cons, first]
    exact later

theorem lastOnesSplit {α : Type} (limit : Nat) (items : List α) :
    ∃ earlier, items = earlier ++ lastOnes limit items ∧ (lastOnes limit items).length = min limit items.length := by
  refine ⟨items.take (items.length - limit), (List.take_append_drop _ _).symm, ?_⟩
  rw [lastOnes, List.length_drop]
  omega

theorem newestRead (absent : d.get? p = none) : (d.isDir p.parent = true → ∃ d', appendAll d p events = .ok d') ∧
    ∀ d', appendAll d p events = .ok d' →
      (∃ text, decode? (d'.bytesAt p) = some text ∧ linesOf text = events.map eventChars ++ [[]]) ∧
      ((∀ e ∈ events, e.ReadsBack) → ∀ since tool limit, 1 ≤ limit → ∃ earlier recent found,
        events.filter (fun e => e.Asked since tool) = earlier ++ recent ∧
        recent.length = min limit.toNat (events.filter (fun e => e.Asked since tool)).length ∧
        read d' p since limit tool = .ok found ∧ List.Forall₂ (fun e record => e.toValue.Same record) recent found) := by
  have free : d.Free p := by simp [Disk.Free, absent]
  refine ⟨fun folder => appendAllDone folder free events, fun d' appended => ?_⟩
  obtain ⟨text, lined⟩ := (absentLined absent).appendAll appended
  refine ⟨⟨text, lined.decoded, lined.lines⟩, fun back since tool limit some => ?_⟩
  obtain ⟨earlier, split, size⟩ := lastOnesSplit limit.toNat (events.filter (fun e => e.Asked since tool))
  refine ⟨earlier, _, _, split, size, lined.read back since tool some, ?_⟩
  exact List.forall₂_map_right_iff.mpr (List.forall₂_same.mpr fun e _ => sortedSame e.toValue)

end

def brokenName : Event := { statusEvent with requestId := "a\r\n\"\\\x7d\n" }

def fourEvents : List Event :=
  [{ statusEvent with timestamp := "2026-01-01T23:59:59.999Z" }, statusEvent, brokenName,
    { statusEvent with tool := "debug.clear" }]

theorem fourStorable : ∀ e ∈ fourEvents, Storable e.toValue := by
  have metadata : Storable (.record statusEvent.metadata) :=
    .record (by decide) (List.forall_mem_singleton.mpr (.real (.inl (by decide))))
  simp only [fourEvents, List.forall_mem_cons, List.not_mem_nil, false_imp_iff, implies_true, and_true]
  exact ⟨eventStorable metadata (by decide), statusStorable, eventStorable metadata (by decide),
    eventStorable metadata (by decide)⟩

theorem newestOfFourRead : ∃ d' text record, appendAll {} journalPath fourEvents = .ok d' ∧
    decode? (d'.bytesAt journalPath) = some text ∧ (linesOf text).length = 5 ∧
    read d' journalPath (some "2026-01-02") 1 (some "debug.status") = .ok [record] ∧
    brokenName.toValue.Same record := by
  have absent : Disk.get? {} journalPath = none := rfl
  obtain ⟨appends, each⟩ := @newestRead {} journalPath fourEvents absent
  obtain ⟨d', appended⟩ := appends rfl
  obtain ⟨⟨text, decoded, lined⟩, reads⟩ := each d' appended
  obtain ⟨earlier, recent, found, split, size, read, same⟩ := reads
    (fun e member => storableReadsBack (fourStorable e member)) (some "2026-01-02") (some "debug.status") 1 le_rfl
  have asked : fourEvents.filter (fun e => e.Asked (some "2026-01-02") (some "debug.status")) = [statusEvent, brokenName] := rfl
  rw [asked] at split size
  obtain ⟨last, rfl⟩ := List.length_eq_one_iff.mp size
  obtain ⟨-, rfl⟩ : [statusEvent] = earlier ∧ brokenName = last := by
    have ends := List.append_inj' (show [statusEvent] ++ [brokenName] = earlier ++ [last] from split) rfl
    exact ⟨ends.1, (List.cons.inj ends.2).1⟩
  cases same with
  | cons here none =>
    cases none
    exact ⟨d', text, _, appended, decoded, by rw [lined]; rfl, read, here⟩

end Journal
end DebugSweep
