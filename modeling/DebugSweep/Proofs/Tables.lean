import DebugSweep.Export.Tree
import Mathlib.Data.List.Basic

/-! Exports as comma-separated values. Main statement: a reader by the rules of RFC 4180, with a line feed behind
each record, reads the columns that were asked for and one record for each finding, whatever characters the values
hold. -/
namespace DebugSweep.Export

/-- Where a reader of comma-separated values stands: before a record, before a further field, in a field without
quotes, within quotes, or behind a quote there, which closes them unless a second one follows. -/
inductive Stand where
  | record
  | field
  | plain
  | quoted
  | quote
  deriving DecidableEq

structure Reader where
  stand : Stand := .record
  field : List Char := []
  fields : List (List Char) := []
  records : List (List (List Char)) := []

namespace Reader

def put (r : Reader) (c : Char) : Reader := { r with field := r.field ++ [c] }

def endField (r : Reader) : Reader := { r with stand := .field, field := [], fields := r.fields ++ [r.field] }

/-- A blank line is a record without fields. -/
def endRecord (r : Reader) : Reader :=
  { records := r.records ++ [if r.stand = .record then [] else r.fields ++ [r.field]] }

def separate? (r : Reader) (c : Char) : Option Reader :=
  if c = ',' then some r.endField else if c = '\n' then some r.endRecord else none

def step? (r : Reader) (c : Char) : Option Reader :=
  match r.stand with
  | .quoted => if c = '"' then some { r with stand := .quote } else some (r.put c)
  | .quote => if c = '"' then some { r.put c with stand := .quoted } else r.separate? c
  | .plain => if c = '"' then none else (r.separate? c).or (some (r.put c))
  | .record | .field =>
      if c = '"' then some { r with stand := .quoted }
      else (r.separate? c).or (some { r.put c with stand := .plain })

def through? (r : Reader) (text : List Char) : Option Reader := text.foldlM step? r

/-- The last record needs no line feed behind it. Open quotes have to be closed. -/
def finish? (r : Reader) : Option (List (List (List Char))) :=
  match r.stand with
  | .record => some r.records
  | .quoted => none
  | _ => some r.endRecord.records

end Reader

def readTable (text : String) : Option (List (List String)) :=
  ((Reader.through? {} text.toList).bind Reader.finish?).map (·.map (·.map String.ofList))

def valueText : Value → String
  | .text s => s
  | .int n => toString n
  | _ => ""

theorem cellShown (f : Finding) (column : String) : String.ofList (cellText f column) = valueText (cell f column) := by
  unfold cellText valueText
  cases cell f column <;> simp

namespace Reader
variable {r : Reader} {field : List Char} {front fields : List (List Char)} {done records : List (List (List Char))}

theorem throughAppend (r : Reader) (text rest : List Char) :
    r.through? (text ++ rest) = (r.through? text).bind (fun next => next.through? rest) := List.foldlM_append

theorem throughCons (r : Reader) (c : Char) (text : List Char) :
    r.through? (c :: text) = (r.step? c).bind (fun next => next.through? text) := List.foldlM_cons

theorem commaEnds (opened : r.stand ≠ .quoted) : r.step? ',' = some r.endField := by
  unfold step?
  split <;> simp_all [separate?]

theorem lineFeedEnds (opened : r.stand ≠ .quoted) : r.step? '\n' = some r.endRecord := by
  unfold step?
  split <;> simp_all [separate?]

theorem plainStep {c : Char} (plain : needsQuotes c = false) (opened : r.stand ≠ .quoted) (fresh : r.stand ≠ .quote) :
    r.step? c = some { r.put c with stand := .plain } := by
  simp only [needsQuotes, Bool.or_eq_false_iff, beq_eq_false_iff_ne] at plain
  have between : r.separate? c = none := by simp [separate?, plain]
  obtain ⟨stand, field, fields, records⟩ := r
  cases stand with
  | quoted => contradiction
  | quote => contradiction
  | _ => simp [step?, plain, between, put]

theorem plainRead (plain : ∀ c ∈ field, needsQuotes c = false) (opened : r.stand ≠ .quoted) (fresh : r.stand ≠ .quote) :
    r.through? field =
      some { r with stand := if field = [] then r.stand else .plain, field := r.field ++ field } := by
  induction field generalizing r with
  | nil => simp [through?]
  | cons c field ih =>
    obtain ⟨here, later⟩ := List.forall_mem_cons.mp plain
    rw [throughCons, plainStep here opened fresh]
    simp [ih later, put]

theorem quotedRead (quoted : r.stand = .quoted) :
    r.through? (field.flatMap (fun c => if c == '"' then ['"', '"'] else [c])) =
      some { r with field := r.field ++ field } := by
  induction field generalizing r with
  | nil => simp [through?]
  | cons c field ih =>
    have doubled : r.through? (if c == '"' then ['"', '"'] else [c]) = some (r.put c) := by
      split
      · rename_i same
        obtain rfl : c = '"' := by simpa using same
        simp [through?, step?, quoted, put]
      · rename_i other
        have single : c ≠ '"' := by simpa using other
        simp [through?, step?, quoted, single]
    have later : (r.put c).stand = .quoted := quoted
    rw [List.flatMap_cons, throughAppend, doubled, Option.bind_some, ih later]
    simp [put]

structure Holds (r : Reader) (record : List (List Char)) (done : List (List (List Char))) : Prop where
  closed : r.stand ≠ .quoted
  whole : r.fields ++ [r.field] = record
  before : r.records = done
  -- Nothing but an empty field leaves the reader where the record starts.
  blank : r.stand = .record → record = [[]]

theorem fieldRead (front : List (List Char)) (done : List (List (List Char))) {stand : Stand}
    (start : stand = .record ∧ front = [] ∨ stand = .field) (field : List Char) :
    ∃ r, through? ⟨stand, [], front, done⟩ (csvField field) = some r ∧ r.Holds (front ++ [field]) done := by
  unfold csvField
  split
  · have opened : step? ⟨stand, [], front, done⟩ '"' = some ⟨.quoted, [], front, done⟩ := by
      rcases start with ⟨rfl, -⟩ | rfl <;> rfl
    refine ⟨⟨.quote, field, front, done⟩, ?_, by simp, rfl, rfl, by simp⟩
    rw [throughCons, opened, Option.bind_some, throughAppend, quotedRead rfl]
    rfl
  · rename_i plain
    refine ⟨_, plainRead (by simpa using plain) ?_ ?_, ?_, rfl, rfl, ?_⟩
    all_goals by_cases blank : field = [] <;> rcases start with ⟨rfl, rfl⟩ | rfl <;> simp [blank]

theorem fieldsRead (front : List (List Char)) (done : List (List (List Char))) {stand : Stand}
    (start : stand = .record ∧ front = [] ∨ stand = .field) (some : fields ≠ []) :
    ∃ r, through? ⟨stand, [], front, done⟩ (List.intercalate [','] (fields.map csvField)) = Option.some r ∧
      r.Holds (front ++ fields) done := by
  induction fields generalizing stand front with
  | nil => contradiction
  | cons field fields ih =>
    obtain ⟨r, read, holds⟩ := fieldRead front done start field
    cases fields with
    | nil => exact ⟨r, by simpa using read, holds⟩
    | cons next fields =>
      obtain ⟨last, rest, whole⟩ := ih (front ++ [field]) (.inr rfl) (by simp)
      have comma : r.step? ',' = Option.some ⟨.field, [], front ++ [field], done⟩ := by
        rw [commaEnds holds.closed, endField, holds.whole, holds.before]
      refine ⟨last, ?_, by simpa using whole⟩
      simpa [throughAppend, throughCons, read, comma] using rest

-- The quotes of a lone empty field take the reader away from where the record starts.
theorem recordRead (done : List (List (List Char))) (some : fields ≠ []) :
    ∃ r, through? { records := done } (csvRecord fields) = Option.some r ∧ r.Holds fields done ∧
      r.stand ≠ .record := by
  unfold csvRecord
  split
  · rename_i lone
    obtain rfl : fields = [[]] := by simpa using lone
    exact ⟨⟨.quote, [], [], done⟩, rfl, ⟨by simp, rfl, rfl, by simp⟩, by simp⟩
  · rename_i other
    obtain ⟨r, read, holds⟩ := fieldsRead [] done (.inl ⟨rfl, rfl⟩) some
    exact ⟨r, read, holds, fun start => other (by simpa using holds.blank start)⟩

theorem Holds.ended (holds : r.Holds fields done) (filled : r.stand ≠ .record) :
    r.endRecord = { records := done ++ [fields] } := by
  rw [endRecord, if_neg filled, holds.whole, holds.before]

theorem Holds.finished (holds : r.Holds fields done) (filled : r.stand ≠ .record) :
    r.finish? = some (done ++ [fields]) := by
  have last := holds.ended filled
  unfold finish?
  split
  · contradiction
  · exact absurd ‹_› holds.closed
  · rw [last]

theorem recordsRead (done : List (List (List Char))) (some : ∀ fields ∈ records, fields ≠ []) :
    through? { records := done } (records.map (fun fields => csvRecord fields ++ ['\n'])).flatten =
      Option.some { records := done ++ records } := by
  induction records generalizing done with
  | nil => simp [through?]
  | cons fields records ih =>
    obtain ⟨here, later⟩ := List.forall_mem_cons.mp some
    obtain ⟨r, read, holds, filled⟩ := recordRead done here
    have lineFeed : r.through? ['\n'] = Option.some { records := done ++ [fields] } := by
      rw [throughCons, lineFeedEnds holds.closed, holds.ended filled]
      rfl
    rw [List.map_cons, List.flatten_cons, throughAppend, throughAppend, read]
    simp [lineFeed, ih _ later]

theorem lineFeedLeaves {next : Reader} (read : r.step? '\n' = some next) :
    next.stand = .quoted ∨ next.stand = .record := by
  obtain ⟨stand, field, fields, records⟩ := r
  cases stand with
  | quoted =>
    cases read
    exact .inl rfl
  | _ =>
    cases read
    exact .inr rfl

theorem recordEnd (some : fields ≠ []) : ∃ text c, csvRecord fields = text ++ [c] ∧ c ≠ '\n' := by
  obtain ⟨r, read, holds, filled⟩ := recordRead [] some
  rcases List.eq_nil_or_concat' (csvRecord fields) with empty | ⟨text, c, whole⟩
  · rw [empty] at read
    cases read
    contradiction
  · refine ⟨text, c, whole, ?_⟩
    rintro rfl
    rw [whole, throughAppend] at read
    obtain ⟨before, -, last⟩ := Option.bind_eq_some_iff.mp read
    have stepped : before.step? '\n' = Option.some r := by simpa [throughCons, through?] using last
    rcases lineFeedLeaves stepped with quoted | record
    · exact holds.closed quoted
    · exact filled record

end Reader

theorem tableRead {records : List (List (List Char))} (some : records ≠ []) (filled : ∀ fields ∈ records, fields ≠ []) :
    (Reader.through? {} ((records.map (fun fields => csvRecord fields ++ ['\n'])).flatten.reverse.dropWhile
      (· == '\n')).reverse).bind Reader.finish? = Option.some records := by
  obtain ⟨front, last, rfl⟩ := (List.eq_nil_or_concat' records).resolve_left some
  obtain ⟨text, c, record, other⟩ := Reader.recordEnd (filled last (by simp))
  have before := Reader.recordsRead [] (fun fields (member : fields ∈ front) => filled fields (by simp [member]))
  obtain ⟨r, read, holds, away⟩ := Reader.recordRead front (filled last (by simp))
  have stripped : ((front ++ [last]).map (fun fields => csvRecord fields ++ ['\n'])).flatten.reverse.dropWhile
      (· == '\n') = ((front.map (fun fields => csvRecord fields ++ ['\n'])).flatten ++ csvRecord last).reverse := by
    simp [record, other]
  rw [stripped, List.reverse_reverse, Reader.throughAppend, before, Option.bind_some, List.nil_append, read]
  exact holds.finished away

theorem csvReadBack (here : AbsPath) (roots : List String) {fields : Option (List String)} (findings : List Finding)
    (some : chosen fields ≠ []) :
    ∃ text, render here roots "csv" fields findings = .ok text ∧ readTable text = Option.some
      (chosen fields :: findings.map (fun f => (chosen fields).map (fun column => valueText (cell f column)))) := by
  refine ⟨csv (chosen fields) findings, rfl, ?_⟩
  have filled : ∀ record ∈ csvRecords (chosen fields) findings, record ≠ [] := by
    simp [csvRecords, some]
  have read := tableRead (by simp [csvRecords]) filled
  rw [readTable, csv, String.toList_ofList, read]
  simp [csvRecords, Function.comp_def, cellShown]

def dumpReading (content : String) : Finding :=
  ⟨"/w/a.php:1:0", "/w/a.php", "a.php", 1, 0, content, content, .dump, .info⟩

theorem knottedCellsReadBack :
    chosen (some ["text", "colour"]) ≠ [] ∧
      ∃ text, render ⟨[]⟩ [] "csv" (some ["text", "colour"]) [dumpReading "", dumpReading "dump(\"a,\nb\");\n"] =
        .ok text ∧ readTable text = some [["text"], [""], ["dump(\"a,\nb\");\n"]] := by
  have known : chosen (some ["text", "colour"]) ≠ [] := by decide
  exact ⟨known, csvReadBack ⟨[]⟩ [] [dumpReading "", dumpReading "dump(\"a,\nb\");\n"] known⟩

end DebugSweep.Export
