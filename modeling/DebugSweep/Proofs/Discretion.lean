import DebugSweep.Journal.Metadata
import Mathlib.Data.List.Sort

/-! What the journal tells of a request's arguments. Main statement: arguments of the same names
whose values are equal or look alike get one description, and the description of a single value
tells it from every value that does not look alike. -/
namespace DebugSweep.Journal
open Value

def lineIn? (name : String) (selection : List (String × Value)) : Option Int :=
  ((fieldIn? name selection).bind (field? "line")).bind int?

/-- The line on which a selection ends: without an end, the one on which it starts. -/
def lastLine? (selection : List (String × Value)) : Option Int :=
  if "end" ∈ selection.map Prod.fst then lineIn? "end" selection else lineIn? "start" selection

inductive Alike (key : String) : Value → Value → Prop
  | text {s t : String}
      (hidden : key ∉ ["path", "id", "kind", "format", "language", "mode", "since", "tool"])
      (length : s.toList.length = t.toList.length) (breaks : s.toList.count '\n' = t.toList.count '\n') :
      Alike key (.text s) (.text t)
  | list {items others : List Value}
      (hidden : key ∉ ["disabled_types", "fields"] ∨
        (∃ item ∈ items, item.text? = none) ∧ ∃ item ∈ others, item.text? = none)
      (length : items.length = others.length) : Alike key (.list items) (.list others)
  | record {fields others : List (String × Value)} (hidden : key ≠ "selection")
      (names : ∀ name, name ∈ fields.map Prod.fst ↔ name ∈ others.map Prod.fst) :
      Alike key (.record fields) (.record others)
  | selection {fields others : List (String × Value)} (here : key = "selection")
      (first : lineIn? "start" fields = lineIn? "start" others) (last : lastLine? fields = lastLine? others) :
      Alike key (.record fields) (.record others)

def Keyed : Value → Prop
  | .record fields => (fields.map Prod.fst).Nodup
  | _ => True

def Reordered (key : String) (v w : Value) : Prop :=
  key ∈ ["disabled_types", "fields"] ∧
    ∃ names others : List String, v = ofTexts names ∧ w = ofTexts others ∧ names.Perm others

theorem sortTextsIff {names others : List String} : sortTexts names = sortTexts others ↔ names.Perm others := by
  have sorted (items : List String) : (sortTexts items).Pairwise (fun a b => decide (a ≤ b) = true) := by
    apply List.pairwise_mergeSort
    · simpa using fun a b c => String.le_trans
    · simpa using String.le_total
  have perm (items : List String) : (sortTexts items).Perm items := List.mergeSort_perm items _
  constructor
  · intro same
    exact (perm names).symm.trans (same ▸ perm others)
  · intro reordered
    refine List.Perm.eq_of_pairwise (fun a b _ _ => by simpa using String.le_antisymm) (sorted names)
      (sorted others) ?_
    exact (perm names).trans (reordered.trans (perm others).symm)

theorem fieldAbsent {name : String} {fields : List (String × Value)} :
    fieldIn? name fields = none ↔ name ∉ fields.map Prod.fst := by
  induction fields with
  | nil => simp [fieldIn?]
  | cons field rest ih =>
    obtain ⟨key, value⟩ := field
    by_cases same : key = name
    · simp [fieldIn?, same]
    · simp [fieldIn?, same, ih, Ne.symm same]

theorem fieldOnce {name : String} {value : Value} {fields : List (String × Value)}
    (once : (fields.map Prod.fst).Nodup) (member : (name, value) ∈ fields) :
    fieldIn? name fields = some value := by
  induction fields with
  | nil => simp at member
  | cons field rest ih =>
    obtain ⟨key, first⟩ := field
    obtain ⟨new, once⟩ := List.nodup_cons.mp once
    rcases List.mem_cons.mp member with same | member
    · cases same
      simp [fieldIn?]
    · have other : key ≠ name := by
        rintro rfl
        exact new (List.mem_map.mpr ⟨_, member, rfl⟩)
      rw [fieldIn?, if_neg other, ih once member]

def written : Option Int → Value
  | some n => .int n
  | none => .null

theorem writtenInj {m n : Option Int} : written m = written n ↔ m = n := by
  cases m <;> cases n <;> simp [written]

theorem lineOfWritten (place : Option Value) :
    lineOf place = written ((place.bind (field? "line")).bind int?) := by
  cases place with
  | none => rfl
  | some value =>
    cases value with
    | record fields =>
      simp only [lineOf, Option.bind_some, field?]
      cases fieldIn? "line" fields with
      | none => rfl
      | some line => cases line <;> rfl
    | _ => rfl

theorem selectionLinesWritten (fields : List (String × Value)) :
    selectionLines fields = .list [written (lineIn? "start" fields), written (lastLine? fields)] := by
  have last : lineOf ((fieldIn? "end" fields).or (fieldIn? "start" fields)) = written (lastLine? fields) := by
    unfold lastLine?
    split
    · rename_i given
      obtain ⟨value, found⟩ := Option.ne_none_iff_exists'.mp (fun none => fieldAbsent.mp none given)
      rw [found, Option.some_or, lineOfWritten, lineIn?, found]
    · rename_i absent
      rw [fieldAbsent.mpr absent, Option.none_or, lineOfWritten, lineIn?]
  rw [selectionLines, last, lineOfWritten, lineIn?]

theorem textsOf {items : List Value} {names : List String} (read : items.mapM text? = some names) :
    items = names.map .text := by
  induction items generalizing names with
  | nil => simp_all
  | cons item rest ih =>
    cases item with
    | text s =>
      cases tail : rest.mapM text? with
      | none => simp [text?, tail] at read
      | some others =>
        obtain rfl : s :: others = names := by simpa [text?, tail] using read
        rw [ih tail, List.map_cons]
    | _ => simp [text?] at read

theorem textsRead (names : List String) : (names.map Value.text).mapM text? = some names := by
  induction names with
  | nil => rfl
  | cons name rest ih => rw [List.map_cons, List.mapM_cons, ih]; rfl

theorem textsNone {items : List Value} (read : items.mapM text? = none) :
    ∃ item ∈ items, item.text? = none := by
  induction items with
  | nil => simp at read
  | cons item rest ih =>
    cases head : item.text? with
    | none => exact ⟨item, List.mem_cons_self, head⟩
    | some s =>
      cases tail : rest.mapM text? with
      | none =>
        obtain ⟨other, member, mixed⟩ := ih tail
        exact ⟨other, List.mem_cons_of_mem _ member, mixed⟩
      | some others => simp [head, tail] at read

inductive Described (key : String) : Value → List (String × Value) → Prop
  | kept {v : Value} (noList : ∀ items, v ≠ .list items) (noRecord : ∀ fields, v ≠ .record fields)
      (plain : ∀ s, v = .text s →
        key ∈ ["path", "id", "kind", "format", "language", "mode", "since", "tool"]) :
      Described key v [(key, v)]
  | measured {s : String}
      (hidden : key ∉ ["path", "id", "kind", "format", "language", "mode", "since", "tool"]) :
      Described key (.text s) [(key ++ "_length", .ofNat s.toList.length),
        (key ++ "_lines", .ofNat (s.toList.count '\n' + 1))]
  | listed {names : List String} (shown : key ∈ ["disabled_types", "fields"]) :
      Described key (ofTexts names) [(key, ofTexts (sortTexts names))]
  | counted {items : List Value}
      (hidden : key ∉ ["disabled_types", "fields"] ∨ ∃ item ∈ items, item.text? = none) :
      Described key (.list items) [(key ++ "_count", .ofNat items.length)]
  | named {fields : List (String × Value)} (hidden : key ≠ "selection") :
      Described key (.record fields) [(key ++ "_keys", ofTexts (sortTexts (fields.map Prod.fst)))]
  | spanned {fields : List (String × Value)} (here : key = "selection") :
      Described key (.record fields)
        [("selection_lines", .list [written (lineIn? "start" fields), written (lastLine? fields)])]
  | dated {s : String} : Described key (.moment s) [(key ++ "_type", .text "datetime")]

theorem described (key : String) (v : Value) : Described key v (describe key v) := by
  cases v with
  | text s =>
    simp only [describe]
    split
    · rename_i plain
      exact .kept nofun nofun fun _ _ => List.contains_iff_mem.mp plain
    · rename_i hidden
      exact .measured fun plain => hidden (List.contains_iff_mem.mpr plain)
  | list items =>
    simp only [describe, texts?]
    split
    · rename_i names listed read
      rw [textsOf read]
      exact .listed (List.contains_iff_mem.mp listed)
    · rename_i other
      apply Described.counted
      by_cases listed : nameLists.contains key = true
      · right
        apply textsNone
        cases read : items.mapM text? with
        | none => rfl
        | some names => exact (other names listed read).elim
      · exact .inl fun member => listed (List.contains_iff_mem.mpr member)
  | record fields =>
    simp only [describe]
    split
    · rename_i here
      rw [selectionLinesWritten]
      exact .spanned (beq_iff_eq.mp here)
    · rename_i hidden
      exact .named fun here => hidden (beq_iff_eq.mpr here)
  | moment s => exact .dated
  | _ => exact .kept nofun nofun nofun

section
variable {key : String} {v w : Value}

theorem describedAlike (left : Keyed v) (right : Keyed w) (alike : Alike key v w) :
    describe key v = describe key w := by
  have first := described key v
  have second := described key w
  generalize describe key v = a at first ⊢
  generalize describe key w = b at second ⊢
  cases alike with
  | text hidden length breaks =>
    cases first with
    | kept _ _ plain => exact absurd (plain _ rfl) hidden
    | measured =>
      cases second with
      | kept _ _ plain => exact absurd (plain _ rfl) hidden
      | measured => rw [length, breaks]
  | list hidden length =>
    have shown (names : List String) (mixed : ∃ item ∈ names.map Value.text, item.text? = none) : False := by
      simp [text?] at mixed
    cases first with
    | kept noList => exact absurd rfl (noList _)
    | listed listed => exact (hidden.elim (· listed) fun mixed => shown _ mixed.1).elim
    | counted =>
      cases second with
      | kept noList => exact absurd rfl (noList _)
      | listed listed => exact (hidden.elim (· listed) fun mixed => shown _ mixed.2).elim
      | counted => rw [length]
  | record hidden names =>
    cases first with
    | kept _ noRecord => exact absurd rfl (noRecord _)
    | spanned here => exact absurd here hidden
    | named =>
      cases second with
      | kept _ noRecord => exact absurd rfl (noRecord _)
      | spanned here => exact absurd here hidden
      | named => rw [sortTextsIff.mpr ((List.perm_ext_iff_of_nodup left right).mpr names)]
  | selection here start stop =>
    cases first with
    | kept _ noRecord => exact absurd rfl (noRecord _)
    | named hidden => exact absurd here hidden
    | spanned =>
      cases second with
      | kept _ noRecord => exact absurd rfl (noRecord _)
      | named hidden => exact absurd here hidden
      | spanned => rw [start, stop]

-- Entries of two kinds differ in their names or in their number, so the kinds of the values agree.
theorem describedApart (left : Keyed v) (right : Keyed w) (undated : ∀ s, v ≠ .moment s)
    (same : describe key v = describe key w) : v = w ∨ Alike key v w ∨ Reordered key v w := by
  have first := described key v
  have second := described key w
  generalize describe key v = a at first same
  generalize describe key w = b at second same
  cases first with
  | kept noList noRecord =>
    cases second with
    | kept => exact .inl (by simpa using same)
    | @listed names =>
      obtain rfl : v = ofTexts (sortTexts names) := by simpa using same
      exact absurd rfl (noList _)
    | spanned here => simp [here] at same
    | _ => exact absurd same.symm (by simp)
  | measured hidden =>
    cases second with
    | measured =>
      simp only [List.cons.injEq, Prod.mk.injEq, ofNat, Value.int.injEq] at same
      exact .inr (.inl (.text hidden (by omega) (by omega)))
    | _ => simp at same
  | @listed names shown =>
    cases second with
    | kept noList =>
      obtain rfl : w = ofTexts (sortTexts names) := by simpa using same.symm
      exact absurd rfl (noList _)
    | listed =>
      simp only [List.cons.injEq, Prod.mk.injEq, ofTexts, Value.list.injEq] at same
      have same := (List.map_injective_iff.mpr @Value.text.inj) same.1.2
      exact .inr (.inr ⟨shown, _, _, rfl, rfl, sortTextsIff.mp same⟩)
    | spanned here => simp [here] at same
    | _ => exact absurd same.symm (by simp)
  | counted hidden =>
    cases second with
    | counted hidden' =>
      simp only [List.cons.injEq, Prod.mk.injEq, ofNat, Value.int.injEq] at same
      refine .inr (.inl (.list ?_ (by omega)))
      rcases hidden with hidden | mixed
      · exact .inl hidden
      · exact hidden'.imp_right fun mixed' => ⟨mixed, mixed'⟩
    | spanned here => simp [here] at same
    | _ => simp at same
  | named hidden =>
    cases second with
    | named =>
      simp only [List.cons.injEq, Prod.mk.injEq, ofTexts, Value.list.injEq] at same
      have same := (List.map_injective_iff.mpr @Value.text.inj) same.1.2
      refine .inr (.inl (.record hidden ?_))
      exact (List.perm_ext_iff_of_nodup left right).mp (sortTextsIff.mp same)
    | spanned here => exact absurd here hidden
    | _ => simp at same
  | spanned here =>
    cases second with
    | spanned =>
      simp only [List.cons.injEq, Prod.mk.injEq, Value.list.injEq, writtenInj] at same
      exact .inr (.inl (.selection here same.1.2.1 same.1.2.2.1))
    | named hidden => exact absurd here hidden
    | _ => simp [here] at same
  | dated => exact absurd rfl (undated _)

theorem describedReordered (reordered : Reordered key v w) : describe key v = describe key w := by
  obtain ⟨listed, names, others, rfl, rfl, perm⟩ := reordered
  have listed : nameLists.contains key = true := List.contains_iff_mem.mpr listed
  simp only [describe, ofTexts, texts?, listed, textsRead, sortTextsIff.mpr perm]

theorem metadataOne (key : String) (v : Value) : metadata [(key, v)] = describe key v := by
  have entries := described key v
  simp only [metadata, List.mergeSort_singleton, List.flatMap_cons, List.flatMap_nil, List.append_nil]
  generalize describe key v = a at entries
  cases entries <;> simp [setIn]

end

theorem metadataByName {arguments : List (String × Value)} (once : (arguments.map Prod.fst).Nodup) :
    metadata arguments =
      ((sortTexts (arguments.map Prod.fst)).flatMap fun key =>
        ((fieldIn? key arguments).map (describe key)).getD []).foldl
          (fun kept (name, value) => setIn name value kept) [] := by
  have names : (arguments.mergeSort fun a b => decide (a.1 ≤ b.1)).map Prod.fst =
      sortTexts (arguments.map Prod.fst) := List.map_mergeSort (fun a _ b _ => rfl)
  rw [metadata, ← names, List.flatMap_map]
  congr 1
  apply List.flatMap_congr
  intro field member
  rw [fieldOnce once (List.mem_mergeSort.mp member), Option.map_some, Option.getD_some]

theorem metadataTellsNoMore {a b : List (String × Value)} (once : (a.map Prod.fst).Nodup)
    (once' : (b.map Prod.fst).Nodup) (names : ∀ name, name ∈ a.map Prod.fst ↔ name ∈ b.map Prod.fst)
    (same : ∀ key v w, (key, v) ∈ a → (key, w) ∈ b → describe key v = describe key w) :
    metadata a = metadata b := by
  rw [metadataByName once, metadataByName once',
    sortTextsIff.mpr ((List.perm_ext_iff_of_nodup once once').mpr names)]
  congr 1
  apply List.flatMap_congr
  intro key member
  have given : key ∈ b.map Prod.fst := (List.mergeSort_perm _ _).mem_iff.mp member
  obtain ⟨v, left⟩ : ∃ v, (key, v) ∈ a := by simpa using (names key).mpr given
  obtain ⟨w, right⟩ : ∃ w, (key, w) ∈ b := by simpa using given
  rw [fieldOnce once left, fieldOnce once' right, Option.map_some, Option.map_some, same _ _ _ left right]

theorem metadataDiscreet :
    (∀ a b : List (String × Value), (a.map Prod.fst).Nodup → (b.map Prod.fst).Nodup →
      (∀ key v, (key, v) ∈ a ++ b → Keyed v) →
      (∀ name, name ∈ a.map Prod.fst ↔ name ∈ b.map Prod.fst) →
      (∀ key v w, (key, v) ∈ a → (key, w) ∈ b → v = w ∨ Alike key v w) → metadata a = metadata b) ∧
    ∀ key v w, Keyed v → Keyed w → (∀ s, v ≠ .moment s) →
      (metadata [(key, v)] = metadata [(key, w)] ↔ v = w ∨ Alike key v w ∨ Reordered key v w) := by
  constructor
  · intro a b once once' keyed names alike
    apply metadataTellsNoMore once once' names
    intro key v w left right
    rcases alike key v w left right with rfl | alike
    · rfl
    · have keyedLeft := keyed key v (List.mem_append_left _ left)
      exact describedAlike keyedLeft (keyed key w (List.mem_append_right _ right)) alike
  · intro key v w left right undated
    rw [metadataOne, metadataOne]
    refine ⟨describedApart left right undated, ?_⟩
    rintro (rfl | alike | reordered)
    · rfl
    · exact describedAlike left right alike
    · exact describedReordered reordered

def secretArguments : List (String × Value) :=
  [("text", .text "dd($password);\n"), ("text_length", .int 3),
   ("selection", .record [("start", .record [("line", .int 4), ("character", .int 0)])])]

def otherArguments : List (String × Value) :=
  [("selection", .record [("end", .record [("line", .int 4)]), ("start", .record [("line", .int 4)])]),
   ("text_length", .int 3), ("text", .text "echo 'nothing\n'")]

theorem passwordUntold : metadata secretArguments = metadata otherArguments ∧
    metadata secretArguments =
      [("selection_lines", .list [.int 4, .int 4]), ("text_length", .int 3), ("text_lines", .int 2)] := by
  constructor
  · apply metadataDiscreet.1
    · decide
    · decide
    · intro key v member
      simp only [secretArguments, otherArguments, List.cons_append, List.nil_append, List.mem_cons, List.not_mem_nil,
        or_false, Prod.mk.injEq] at member
      rcases member with ⟨_, rfl⟩ | ⟨_, rfl⟩ | ⟨_, rfl⟩ | ⟨_, rfl⟩ | ⟨_, rfl⟩ | ⟨_, rfl⟩ <;> simp [Keyed]
    · intro name
      have perm : (secretArguments.map Prod.fst).Perm (otherArguments.map Prod.fst) := by decide
      exact perm.mem_iff
    · intro key v w left right
      simp only [secretArguments, List.mem_cons, List.not_mem_nil, or_false, Prod.mk.injEq] at left
      rcases left with ⟨rfl, rfl⟩ | ⟨rfl, rfl⟩ | ⟨rfl, rfl⟩
      · obtain rfl : w = .text "echo 'nothing\n'" := by simpa [otherArguments] using right
        exact .inr (.text (by decide) (by decide) (by decide))
      · obtain rfl : w = .int 3 := by simpa [otherArguments] using right
        exact .inl rfl
      · obtain rfl : w = .record [("end", .record [("line", .int 4)]), ("start", .record [("line", .int 4)])] := by
          simpa [otherArguments] using right
        exact .inr (.selection rfl (by decide) (by decide))
  · simp [metadata, secretArguments, List.mergeSort, List.MergeSort.Internal.splitInTwo, describe, plainTexts,
      selectionLines, lineOf, fieldIn?, setIn, ofNat]

end DebugSweep.Journal
