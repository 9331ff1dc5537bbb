import DebugSweep.Proofs.Decimals
import DebugSweep.Proofs.TextLists

/-! Values on one line. Main statement: a value that can be written, put on one line, reads back as that
value with the fields of its records in order. -/
namespace DebugSweep.Json

/-- Values that can be written: whole numbers of few enough digits, doubles that have a word, and records in which no
name stands twice. Dates and times have no form. -/
inductive Storable : Value → Prop where
  | null : Storable .null
  | bool (b : Bool) : Storable (.bool b)
  | int {n : Int} (short : (Nat.toDigits 10 n.natAbs).length ≤ digitLimit) : Storable (.int n)
  | real {bits : UInt64} (readable : Readable bits) : Storable (.real bits)
  | text (s : String) : Storable (.text s)
  | list {items : List Value} (each : ∀ item ∈ items, Storable item) : Storable (.list items)
  | record {fields : List (String × Value)} (once : (fields.map Prod.fst).Nodup)
      (each : ∀ field ∈ fields, Storable field.2) : Storable (.record fields)

def onLine (v : Value) : List Char := (emit Style.line 0 "" v).toList

def nextItems (items : List Value) : List Char := items.flatMap (fun item => ',' :: ' ' :: onLine item)

def fieldChars (field : String × Value) : List Char := (stringText true field.1).toList ++ ':' :: ' ' :: onLine field.2

def nextFields (fields : List (String × Value)) : List Char := fields.flatMap (fun field => ',' :: ' ' :: fieldChars field)

mutual
theorem emitOnLine (level : Nat) (out : String) (v : Value) :
    (emit Style.line level out v).toList = out.toList ++ onLine v := by
  match v with
  | .null => simp [onLine, emit]
  | .bool true => simp [onLine, emit]
  | .bool false => simp [onLine, emit]
  | .int n => simp [onLine, emit]
  | .real bits => simp [onLine, emit]
  | .text s => simp [onLine, emit]
  | .moment s => simp [onLine, emit]
  | .list [] => simp [onLine, emit]
  | .list (item :: items) =>
    have spelled (level : Nat) (out : String) : (emit Style.line level out (.list (item :: items))).toList =
        out.toList ++ '[' :: (onLine item ++ (nextItems items ++ [']'])) := by
      rw [emit, String.toList_append, String.toList_append, emitItemsOnLine _ _ items, emitOnLine _ _ item]
      simp [Style.lineBreak, Style.line]
    rw [onLine, spelled, spelled]
    rfl
  | .record [] => simp [onLine, emit]
  | .record ((name, value) :: fields) =>
    have spelled (level : Nat) (out : String) : (emit Style.line level out (.record ((name, value) :: fields))).toList =
        out.toList ++ '\x7b' :: (fieldChars (name, value) ++ (nextFields fields ++ ['\x7d'])) := by
      rw [emit, String.toList_append, String.toList_append, emitFieldsOnLine _ _ fields, emitOnLine _ _ value]
      simp [fieldChars, Style.lineBreak, Style.line]
    rw [onLine, spelled, spelled]
    rfl

theorem emitItemsOnLine (level : Nat) (out : String) (items : List Value) :
    (emitItems Style.line level out items).toList = out.toList ++ nextItems items := by
  match items with
  | [] => simp [emitItems, nextItems]
  | item :: items =>
    rw [emitItems, emitItemsOnLine level _ items, emitOnLine level _ item]
    simp [nextItems, Style.comma, Style.line]

theorem emitFieldsOnLine (level : Nat) (out : String) (fields : List (String × Value)) :
    (emitFields Style.line level out fields).toList = out.toList ++ nextFields fields := by
  match fields with
  | [] => simp [emitFields, nextFields]
  | (name, value) :: fields =>
    rw [emitFields, emitFieldsOnLine level _ fields, emitOnLine level _ value]
    simp [nextFields, fieldChars, Style.comma, Style.line]
end

theorem listOnLine (item : Value) (items : List Value) :
    onLine (.list (item :: items)) = '[' :: (onLine item ++ (nextItems items ++ [']'])) := by
  rw [onLine, emit, String.toList_append, String.toList_append, emitItemsOnLine, emitOnLine]
  simp [Style.lineBreak, Style.line]

theorem recordOnLine (field : String × Value) (fields : List (String × Value)) :
    onLine (.record (field :: fields)) = '\x7b' :: (fieldChars field ++ (nextFields fields ++ ['\x7d'])) := by
  rw [onLine, emit, String.toList_append, String.toList_append, emitFieldsOnLine, emitOnLine]
  simp [fieldChars, Style.lineBreak, Style.line]

theorem valueStarts {fuel : Nat} {text : List Char} {found : Value × List Char}
    (read : readValue fuel text = .ok found) : ∃ c more, text = c :: more ∧ isSpace c = false ∧ c ≠ ']' := by
  cases fuel with
  | zero => contradiction
  | succ fuel =>
    unfold readValue at read
    split at read
    · rename_i word
      obtain ⟨⟨spelled, value⟩, member, dropped⟩ := List.exists_of_findSome?_eq_some word
      obtain ⟨rest, same, -⟩ := Option.map_eq_some_iff.mp dropped
      have lead : ∀ pair ∈ words, ∃ c more, pair.1.toList = c :: more ∧ isSpace c = false ∧ c ≠ ']' := by
        simp [words, isSpace]
      obtain ⟨c, more, letters, plain⟩ := lead _ member
      rw [letters] at same
      cases text with
      | nil => contradiction
      | cons d text =>
        rw [dropWord?] at same
        split at same
        · rename_i equal
          exact ⟨d, text, rfl, equal ▸ plain⟩
        · contradiction
    · split at read
      · exact ⟨_, _, rfl, by decide⟩
      · exact ⟨_, _, rfl, by decide⟩
      · exact ⟨_, _, rfl, by decide⟩
      · exact ⟨_, _, rfl, by decide⟩
      · obtain ⟨d, more, spelled, digit⟩ := numberStarts read
        refine ⟨d, more, spelled, ?_, ?_⟩
        · simp only [isSpace, Bool.or_eq_false_iff, beq_eq_false_iff_ne]
          refine ⟨⟨⟨?_, ?_⟩, ?_⟩, ?_⟩
          all_goals
            rintro rfl
            contradiction
        · rintro rfl
          contradiction

theorem valueSkip {fuel : Nat} {text : List Char} {found : Value × List Char} (read : readValue fuel text = .ok found) :
    skipSpace text = text := by
  obtain ⟨c, more, rfl, plain, -⟩ := valueStarts read
  exact List.dropWhile_cons_of_neg (by simp [plain])

theorem spaceSkip (text : List Char) : skipSpace (' ' :: text) = skipSpace text := rfl

theorem stopsAt {c : Char} (mark : c = ',' ∨ c = ']' ∨ c = '\x7d') (rest : List Char) : Stops (c :: rest) := by
  rintro d ⟨⟩
  rcases mark with rfl | rfl | rfl <;> decide

theorem nameRead (s : String) (rest : List Char) : ∃ body, (stringText true s).toList ++ rest = '"' :: body ∧
    readChars (body.length + 1) [] body = .ok (s, rest) := by
  refine ⟨_, by rw [stringChars, List.cons_append, List.cons_append], ?_⟩
  have noWord (text : List Char) : readWord? ('"' :: text) = none := rfl
  have read := textRead 0 s rest
  rw [stringChars, List.cons_append, List.cons_append, readValue, noWord] at read
  revert read
  cases readChars _ [] _ with
  | error e =>
    intro failed
    contradiction
  | ok found =>
    intro read
    cases read
    rfl

/-- The value reads back from its line, whatever follows that does not go on with a number. -/
def ReadsBack (v : Value) : Prop :=
  ∀ fuel rest, (onLine v).length ≤ fuel → Stops rest → readValue fuel (onLine v ++ rest) = .ok (v, rest)

theorem ReadsBack.skip {v : Value} (reads : ReadsBack v) {rest : List Char} (stops : Stops rest) :
    skipSpace (onLine v ++ rest) = onLine v ++ rest := valueSkip (reads _ rest le_rfl stops)

theorem itemsStop (items : List Value) (rest : List Char) : Stops (nextItems items ++ ']' :: rest) := by
  cases items with
  | nil => exact stopsAt (.inr (.inl rfl)) rest
  | cons item items => exact stopsAt (.inl rfl) _

theorem itemsBack {items : List Value} {item : Value} (each : ∀ v ∈ item :: items, ReadsBack v) {fuel : Nat}
    (enough : (onLine item).length + (nextItems items).length < fuel) (done : List Value) (rest : List Char) :
    readItems fuel done (onLine item ++ (nextItems items ++ ']' :: rest)) = .ok (.list (done.reverse ++ item :: items), rest) := by
  induction items generalizing item fuel done with
  | nil =>
    obtain ⟨fuel, rfl⟩ := Nat.exists_eq_succ_of_ne_zero (Nat.ne_of_gt (Nat.zero_lt_of_lt enough))
    rw [readItems, each item List.mem_cons_self fuel _ (by omega) (itemsStop [] rest)]
    simp [nextItems, skipSpace, isSpace]
  | cons next items ih =>
    obtain ⟨fuel, rfl⟩ := Nat.exists_eq_succ_of_ne_zero (Nat.ne_of_gt (Nat.zero_lt_of_lt enough))
    obtain ⟨here, later⟩ := List.forall_mem_cons.mp each
    have behind : nextItems (next :: items) ++ ']' :: rest = ',' :: ' ' :: (onLine next ++ (nextItems items ++ ']' :: rest)) := by
      simp [nextItems]
    have long : (onLine next).length + (nextItems items).length + 2 = (nextItems (next :: items)).length := by
      simp [nextItems]
    have comma (more : List Char) : skipSpace (',' :: more) = ',' :: more := rfl
    rw [readItems, here fuel _ (by omega) (itemsStop _ rest), behind]
    simp only [comma, spaceSkip, (later next List.mem_cons_self).skip (itemsStop items rest)]
    rw [ih later (by omega)]
    simp

theorem fieldsStop (fields : List (String × Value)) (rest : List Char) : Stops (nextFields fields ++ '\x7d' :: rest) := by
  cases fields with
  | nil => exact stopsAt (.inr (.inr rfl)) rest
  | cons field fields => exact stopsAt (.inl rfl) _

theorem setNew {name : String} {fields : List (String × Value)} (new : name ∉ fields.map Prod.fst) (value : Value) :
    Value.setIn name value fields = fields ++ [(name, value)] := by
  induction fields with
  | nil => rfl
  | cons field fields ih =>
    rw [List.map_cons, List.mem_cons, not_or] at new
    obtain ⟨key, old⟩ := field
    rw [Value.setIn, if_neg (Ne.symm new.1), ih new.2]
    rfl

theorem fieldBack {field : String × Value} {done : List (String × Value)} (reads : ReadsBack field.2) {fuel : Nat}
    (enough : (onLine field.2).length ≤ fuel) {rest : List Char} (stops : Stops rest) :
    (∀ more, skipSpace rest = '\x7d' :: more →
      readFields (fuel + 1) done (fieldChars field ++ rest) = .ok (.record (Value.setIn field.1 field.2 done), more)) ∧
    ∀ more, skipSpace rest = ',' :: more → readFields (fuel + 1) done (fieldChars field ++ rest) =
      readFields fuel (Value.setIn field.1 field.2 done) (skipSpace more) := by
  obtain ⟨body, spelled, read⟩ := nameRead field.1 (':' :: ' ' :: onLine field.2 ++ rest)
  have whole : fieldChars field ++ rest = '"' :: body := by
    rw [← spelled]
    simp [fieldChars]
  have colon (more : List Char) : skipSpace (':' :: more) = ':' :: more := rfl
  rw [whole, readFields, read]
  simp only [List.cons_append, colon, spaceSkip, reads.skip stops, reads fuel rest enough stops]
  exact ⟨fun more closed => by simp only [closed], fun more comma => by simp only [comma]⟩

theorem fieldLong (field : String × Value) : (onLine field.2).length + 2 ≤ (fieldChars field).length := by
  rw [fieldChars, List.length_append, List.length_cons, List.length_cons]
  omega

theorem nameNew {done fields : List (String × Value)} {field : String × Value}
    (once : ((done ++ field :: fields).map Prod.fst).Nodup) : field.1 ∉ done.map Prod.fst := by
  rw [List.map_append, List.nodup_append] at once
  exact fun member => once.2.2 _ member _ List.mem_cons_self rfl

theorem fieldsBack {fields done : List (String × Value)} {field : String × Value}
    (each : ∀ field' ∈ field :: fields, ReadsBack field'.2) (once : ((done ++ field :: fields).map Prod.fst).Nodup)
    {fuel : Nat} (enough : (fieldChars field).length + (nextFields fields).length < fuel) (rest : List Char) :
    readFields fuel done (fieldChars field ++ (nextFields fields ++ '\x7d' :: rest)) =
      .ok (.record (done ++ field :: fields), rest) := by
  induction fields generalizing field fuel done with
  | nil =>
    obtain ⟨fuel, rfl⟩ := Nat.exists_eq_succ_of_ne_zero (Nat.ne_of_gt (Nat.zero_lt_of_lt enough))
    have inner := fieldLong field
    have closed : skipSpace (nextFields [] ++ '\x7d' :: rest) = '\x7d' :: rest := rfl
    rw [(fieldBack (each field List.mem_cons_self) (by omega) (fieldsStop [] rest)).1 rest closed, setNew (nameNew once)]
  | cons next fields ih =>
    obtain ⟨fuel, rfl⟩ := Nat.exists_eq_succ_of_ne_zero (Nat.ne_of_gt (Nat.zero_lt_of_lt enough))
    obtain ⟨here, later⟩ := List.forall_mem_cons.mp each
    have inner := fieldLong field
    have behind : nextFields (next :: fields) ++ '\x7d' :: rest =
        ',' :: ' ' :: (fieldChars next ++ (nextFields fields ++ '\x7d' :: rest)) := by
      simp [nextFields]
    have long : (fieldChars next).length + (nextFields fields).length + 2 = (nextFields (next :: fields)).length := by
      simp [nextFields]
    have comma : skipSpace (nextFields (next :: fields) ++ '\x7d' :: rest) =
        ',' :: ' ' :: (fieldChars next ++ (nextFields fields ++ '\x7d' :: rest)) := behind ▸ rfl
    have quote (more : List Char) : skipSpace (fieldChars next ++ more) = fieldChars next ++ more := by
      rw [fieldChars, stringChars]
      rfl
    rw [(fieldBack here (by omega) (fieldsStop _ rest)).2 _ comma, setNew (nameNew once), spaceSkip, quote,
      ih later (by simpa using once) (by omega)]
    simp

theorem readsAtOnce {v : Value}
    (read : ∀ fuel rest, Stops rest → readValue (fuel + 1) (onLine v ++ rest) = .ok (v, rest)) : ReadsBack v := by
  intro fuel rest enough stops
  obtain ⟨c, more, spelled, -⟩ := valueStarts (read 0 rest stops)
  obtain ⟨c', more', spelled', -⟩ := valueStarts (read 0 [] (by rintro c ⟨⟩))
  rw [List.append_nil] at spelled'
  rw [spelled', List.length_cons] at enough
  obtain ⟨fuel, rfl⟩ : ∃ less, fuel = less + 1 := ⟨fuel - 1, by omega⟩
  exact read fuel rest stops

theorem wordBack {v : Value} (word : ∀ rest, readWord? (onLine v ++ rest) = some (v, rest)) : ReadsBack v :=
  readsAtOnce fun fuel rest _ => by
    unfold readValue
    rw [word]

theorem listBack {items : List Value} (each : ∀ item ∈ items, ReadsBack item) : ReadsBack (.list items) := by
  cases items with
  | nil => exact readsAtOnce fun fuel rest _ => rfl
  | cons item items =>
    intro fuel rest enough stops
    rw [listOnLine] at enough ⊢
    simp only [List.length_cons, List.length_append, List.length_nil] at enough
    obtain ⟨fuel, rfl⟩ : ∃ less, fuel = less + 1 := ⟨fuel - 1, by omega⟩
    have noWord (more : List Char) : readWord? ('[' :: more) = none := rfl
    have room : (onLine item).length + (nextItems items).length < fuel := by omega
    have read := itemsBack each room [] rest
    have start := each item List.mem_cons_self _ _ le_rfl (itemsStop items rest)
    obtain ⟨c, more, spelled, plain, other⟩ := valueStarts start
    have skip := valueSkip start
    rw [spelled] at read skip
    have whole : '[' :: (onLine item ++ (nextItems items ++ [']'])) ++ rest = '[' :: c :: more := by
      rw [← spelled]
      simp
    rw [whole, readValue, noWord]
    simp only [skip]
    split
    · rename_i same
      exact absurd (List.cons.inj same).1 other
    · exact read

theorem recordBack {fields : List (String × Value)} (each : ∀ field ∈ fields, ReadsBack field.2)
    (once : (fields.map Prod.fst).Nodup) : ReadsBack (.record fields) := by
  cases fields with
  | nil => exact readsAtOnce fun fuel rest _ => rfl
  | cons field fields =>
    intro fuel rest enough stops
    rw [recordOnLine] at enough ⊢
    simp only [List.length_cons, List.length_append, List.length_nil] at enough
    obtain ⟨fuel, rfl⟩ : ∃ less, fuel = less + 1 := ⟨fuel - 1, by omega⟩
    have noWord (more : List Char) : readWord? ('\x7b' :: more) = none := rfl
    have apart : (([] ++ field :: fields).map Prod.fst).Nodup := once
    have room : (fieldChars field).length + (nextFields fields).length < fuel := by omega
    have read := fieldsBack each apart room rest
    obtain ⟨more, spelled⟩ : ∃ more, fieldChars field ++ (nextFields fields ++ '\x7d' :: rest) = '"' :: more := by
      rw [fieldChars, stringChars]
      exact ⟨_, rfl⟩
    have skip : skipSpace ('"' :: more) = '"' :: more := rfl
    rw [spelled] at read
    have whole : '\x7b' :: (fieldChars field ++ (nextFields fields ++ ['\x7d'])) ++ rest = '\x7b' :: '"' :: more := by
      rw [← spelled]
      simp
    rw [whole, readValue, noWord]
    simp only [skip]
    exact read

theorem Storable.readsBack {v : Value} (storable : Storable v) : ReadsBack v := by
  induction storable with
  | null => exact wordBack fun rest => rfl
  | bool b =>
    cases b with
    | true => exact wordBack fun rest => rfl
    | false => exact wordBack fun rest => rfl
  | @int n short =>
    have plain : onLine (.int n) = (toString n).toList := by simp [onLine, emit]
    exact readsAtOnce fun fuel rest stops => plain ▸ intRead short stops fuel
  | @real bits readable =>
    have plain : onLine (.real bits) = (realText bits).toList := by simp [onLine, emit]
    exact readsAtOnce fun fuel rest stops => plain ▸ realRead readable stops fuel
  | text s =>
    have plain : onLine (.text s) = (stringText true s).toList := by simp [onLine, emit, Style.line]
    exact readsAtOnce fun fuel rest stops => plain ▸ textRead fuel s rest
  | list each ih => exact listBack ih
  | record once each ih => exact recordBack ih once

theorem Storable.read {v : Value} (storable : Storable v) : read (String.ofList (onLine v)) = .ok v := by
  have back := storable.readsBack (2 * (onLine v).length + 2) [] (by omega) (by rintro c ⟨⟩)
  rw [List.append_nil] at back
  rw [Json.read, String.toList_ofList, valueSkip back, back]
  rfl

theorem sortItemsMap (done items : List Value) : sortItems done items = done.reverse ++ items.map sortFields := by
  induction items generalizing done with
  | nil => simp [sortItems]
  | cons item items ih =>
    rw [sortItems, ih]
    simp

theorem sortPairsMap (done fields : List (String × Value)) :
    sortPairs done fields = done.reverse ++ fields.map (fun field => (field.1, sortFields field.2)) := by
  induction fields generalizing done with
  | nil => simp [sortPairs]
  | cons field fields ih =>
    rw [sortPairs, ih]
    simp

def inOrder (fields : List (String × Value)) : List (String × Value) :=
  (fields.map (fun field => (field.1, sortFields field.2))).mergeSort (fun a b => decide (a.1 ≤ b.1))

theorem sortRecord (fields : List (String × Value)) : sortFields (.record fields) = .record (inOrder fields) := by
  rw [sortFields, sortPairsMap]
  rfl

theorem orderPerm (fields : List (String × Value)) :
    (inOrder fields).Perm (fields.map (fun field => (field.1, sortFields field.2))) := List.mergeSort_perm _ _

theorem orderOnce {fields : List (String × Value)} (once : (fields.map Prod.fst).Nodup) :
    ((inOrder fields).map Prod.fst).Nodup := by
  have names : (fields.map (fun field => (field.1, sortFields field.2))).map Prod.fst = fields.map Prod.fst := by
    simp [Function.comp_def]
  rw [((orderPerm fields).map Prod.fst).nodup_iff, names]
  exact once

theorem Storable.sorted {v : Value} (storable : Storable v) : Storable (sortFields v) := by
  induction storable with
  | list each ih =>
    rw [sortFields, sortItemsMap]
    refine .list fun item member => ?_
    obtain ⟨item', known, rfl⟩ := List.mem_map.mp member
    exact ih item' known
  | @record fields once each ih =>
    rw [sortRecord]
    refine .record (orderOnce once) fun field member => ?_
    obtain ⟨field', known, rfl⟩ := List.mem_map.mp ((orderPerm fields).mem_iff.mp member)
    exact ih field' known
  | null => exact .null
  | bool b => exact .bool b
  | int short => exact .int short
  | real readable => exact .real readable
  | text s => exact .text s

theorem fieldListed {fields : List (String × Value)} (once : (fields.map Prod.fst).Nodup) {name : String} {value : Value} :
    Value.fieldIn? name fields = some value ↔ (name, value) ∈ fields := by
  refine ⟨fun found => ?_, Journal.fieldOnce once⟩
  have named : name ∈ fields.map Prod.fst := by
    by_contra absent
    rw [Journal.fieldAbsent.mpr absent] at found
    contradiction
  obtain ⟨⟨key, value'⟩, member, rfl⟩ := List.mem_map.mp named
  rw [Journal.fieldOnce once member] at found
  exact Option.some.inj found ▸ member

theorem sortedField {fields : List (String × Value)} (once : (fields.map Prod.fst).Nodup) (name : String) :
    (sortFields (.record fields)).field? name = ((Value.record fields).field? name).map sortFields := by
  rw [sortRecord, Value.field?]
  apply Option.ext
  intro value
  rw [Value.field?, fieldListed (orderOnce once), (orderPerm fields).mem_iff, List.mem_map, Option.map_eq_some_iff]
  constructor
  · rintro ⟨⟨key, value'⟩, member, same⟩
    obtain ⟨rfl, rfl⟩ := Prod.mk.inj same
    exact ⟨value', (fieldListed once).mpr member, rfl⟩
  · rintro ⟨value', known, rfl⟩
    exact ⟨(name, value'), (fieldListed once).mp known, rfl⟩

theorem Storable.sortedField {fields : List (String × Value)} (storable : Storable (.record fields)) (name : String) :
    (sortFields (.record fields)).field? name = ((Value.record fields).field? name).map sortFields := by
  cases storable with
  | record once each => exact Json.sortedField once name

end DebugSweep.Json
