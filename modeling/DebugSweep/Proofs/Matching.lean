import DebugSweep.Proofs.Balance
import Mathlib.Order.Bounds.Basic

/-! What the check of a document's braces finds. The braces of its code are taken as one text with line numbers.
Main statement: the check passes exactly the matched ones, and it names the line of the first brace that closes
nothing, or no line if there is none but some brace is not closed. -/
namespace DebugSweep.Edit
open Text Lexis Clear

def bracesOf (state : LineState) (number : Nat) : List (List Char) → List (Nat × Char)
  | [] => []
  | line :: rest =>
      let read := classify line state
      let code := (line.zip read.classes).filter (fun (c, cls) => cls == .code && isBrace c)
      code.map (fun (c, _) => (number, c)) ++ bracesOf read.exit (number + 1) rest

def Document.codeBraces (d : Document) : List (Nat × Char) := bracesOf {} 1 d.lines

inductive Matched : List Char → Prop where
  | none : Matched []
  | pair {inner rest : List Char} (inside : Matched inner) (behind : Matched rest) :
      Matched ('\x7b' :: (inner ++ '\x7d' :: rest))

def Exceeds (stream : List Char) (i : Nat) : Prop :=
  stream[i]? = some '\x7d' ∧ (stream.take i).count '\x7b' < (stream.take (i + 1)).count '\x7d'

theorem keptZip (offset : Nat) (line : List Char) (classes : List CharClass) :
    (kept offset line classes).map Prod.snd = ((line.zip classes).filter (fun p => p.2 == .code)).map Prod.fst := by
  induction line generalizing offset classes with
  | nil => rfl
  | cons c line ih =>
    cases classes with
    | nil => rfl
    | cons cls classes =>
      rw [kept, List.zip_cons_cons]
      split
      · rename_i code
        rw [List.map_cons, ih, List.filter_cons_of_pos (by simp [code]), List.map_cons]
      · rename_i other
        rw [ih, List.filter_cons_of_neg (by simp [other])]

theorem bracesOfLine (state : LineState) (number : Nat) (line : List Char) (rest : List (List Char)) :
    bracesOf state number (line :: rest) =
      (braces (codeOf line state).text).map (number, ·) ++ bracesOf (codeOf line state).exit (number + 1) rest := by
  rw [CodeLine.text, codeChars, keptZip, braces, List.filter_map, List.filter_filter, List.map_map]
  simp only [bracesOf, codeOf, Bool.and_comm]
  rfl

theorem bracesOfBrace (state : LineState) (number : Nat) (lines : List (List Char)) :
    ∀ p ∈ bracesOf state number lines, isBrace p.2 = true := by
  induction lines generalizing state number with
  | nil => simp [bracesOf]
  | cons line rest ih =>
    rw [bracesOfLine]
    intro p member
    rcases List.mem_append.mp member with here | later
    · obtain ⟨c, shown, rfl⟩ := List.mem_map.mp here
      exact (List.mem_filter.mp shown).2
    · exact ih _ _ p later

/-- So many braces are closed that the text does not open, and the rest is matched. -/
inductive Shuts : Nat → List Char → Prop where
  | done {text : List Char} (matched : Matched text) : Shuts 0 text
  | close {depth : Nat} {inner rest : List Char} (inside : Matched inner) (behind : Shuts depth rest) :
      Shuts (depth + 1) (inner ++ '\x7d' :: rest)

theorem Shuts.opened {depth : Nat} {text : List Char} (shuts : Shuts (depth + 1) text) :
    Shuts depth ('\x7b' :: text) := by
  obtain _ | @⟨_, inner, _, inside, behind⟩ := shuts
  cases behind with
  | done matched => exact .done (.pair inside matched)
  | @close depth inner' rest inside' behind =>
    have pair : Matched ('\x7b' :: (inner ++ '\x7d' :: inner')) := .pair inside inside'
    have parts : '\x7b' :: (inner ++ '\x7d' :: (inner' ++ '\x7d' :: rest)) =
        '\x7b' :: (inner ++ '\x7d' :: inner') ++ '\x7d' :: rest := by simp
    exact parts ▸ .close pair behind

theorem Matched.depth {text : List Char} (matched : Matched text) (depth : Nat) :
    braceDepth depth text = some depth := by
  induction matched generalizing depth with
  | none => rfl
  | @pair inner rest _ _ first second =>
    change braceDepth (depth + 1) (inner ++ '\x7d' :: rest) = some depth
    rw [depthAppend, first, Option.bind_some]
    exact second depth

theorem depthShuts {depth : Nat} {text : List Char} (every : ∀ c ∈ text, isBrace c = true)
    (ends : braceDepth depth text = some 0) : Shuts depth text := by
  induction text generalizing depth with
  | nil =>
    obtain rfl : depth = 0 := Option.some.inj ends
    exact .done .none
  | cons c rest ih =>
    obtain ⟨brace, others⟩ := List.forall_mem_cons.mp every
    rw [isBrace, Bool.or_eq_true, beq_iff_eq, beq_iff_eq] at brace
    obtain rfl | rfl := brace
    · exact (ih others ends).opened
    · cases depth with
      | zero => contradiction
      | succ depth => exact .close .none (ih others ends)

theorem matchedIff {text : List Char} (every : ∀ c ∈ text, isBrace c = true) :
    Matched text ↔ braceDepth 0 text = some 0 := by
  refine ⟨fun matched => matched.depth 0, fun ends => ?_⟩
  cases depthShuts every ends with
  | done matched => exact matched

theorem depthStops {depth : Nat} {text : List Char} (stops : braceDepth depth text = none) :
    ∃ early late, text = early ++ '\x7d' :: late ∧ braceDepth depth early = some 0 := by
  induction text generalizing depth with
  | nil => contradiction
  | cons c rest ih =>
    rw [braceDepth] at stops
    split at stops
    · rename_i opening
      obtain ⟨early, late, rfl, level⟩ := ih stops
      refine ⟨c :: early, late, rfl, ?_⟩
      rw [braceDepth, if_pos opening, level]
    · rename_i other
      split at stops
      · rename_i closing
        obtain rfl : c = '\x7d' := beq_iff_eq.mp closing
        split at stops
        · rename_i zero
          obtain rfl : depth = 0 := beq_iff_eq.mp zero
          exact ⟨[], rest, rfl, rfl⟩
        · rename_i above
          obtain ⟨early, late, rfl, level⟩ := ih stops
          refine ⟨'\x7d' :: early, late, rfl, ?_⟩
          rw [braceDepth, if_neg other, if_pos closing, if_neg above, level]
      · rename_i plain
        obtain ⟨early, late, rfl, level⟩ := ih stops
        refine ⟨c :: early, late, rfl, ?_⟩
        rw [braceDepth, if_neg other, if_neg plain, level]

section
variable {stream : List Char} {i : Nat}

theorem exceedsNone (exceeds : Exceeds stream i) : braceDepth 0 stream = none := by
  obtain ⟨here, more⟩ := exceeds
  have front : braceDepth 0 (stream.take (i + 1)) = none := by
    cases ends : braceDepth 0 (stream.take (i + 1)) with
    | none => rfl
    | some final =>
      have even := depthCount ends
      rw [takeHere here, List.count_append, List.count_append, List.count_singleton_self] at even
      rw [takeHere here, List.count_append, List.count_singleton_self] at more
      have other : ['\x7d'].count '\x7b' = 0 := rfl
      omega
  rw [← List.take_append_drop (i + 1) stream, depthAppend, front, Option.bind_none]

theorem exceedsTake {k : Nat} : Exceeds (stream.take k) i ↔ i < k ∧ Exceeds stream i := by
  rw [Exceeds, Exceeds, List.getElem?_take]
  by_cases before : i < k
  · rw [if_pos before, List.take_take, List.take_take, Nat.min_eq_left (by omega), Nat.min_eq_left (by omega)]
    exact (and_iff_right before).symm
  · rw [if_neg before]
    simp [before]

theorem exceedsCount (here : stream[i]? = some '\x7d') :
    Exceeds stream i ↔ (stream.take i).count '\x7b' ≤ (stream.take i).count '\x7d' := by
  rw [Exceeds, takeHere here, List.count_append, List.count_singleton_self, Nat.lt_succ_iff]
  exact and_iff_right here

theorem depthNone : braceDepth 0 stream = none ↔ ∃ i, Exceeds stream i := by
  refine ⟨fun stops => ?_, fun ⟨_, exceeds⟩ => exceedsNone exceeds⟩
  obtain ⟨early, late, rfl, level⟩ := depthStops stops
  have even := depthCount level
  refine ⟨early.length, (exceedsCount (by simp)).mpr ?_⟩
  rw [List.take_left]
  omega

theorem exceedsFirst :
    IsLeast {i | Exceeds stream i} i ↔ stream[i]? = some '\x7d' ∧ braceDepth 0 (stream.take i) = some 0 := by
  constructor
  · rintro ⟨exceeds, least⟩
    refine ⟨exceeds.1, ?_⟩
    cases ends : braceDepth 0 (stream.take i) with
    | none =>
      obtain ⟨j, early⟩ := depthNone.mp ends
      obtain ⟨before, exceeds'⟩ := exceedsTake.mp early
      exact absurd (least exceeds') (Nat.not_le_of_lt before)
    | some final =>
      have even := depthCount ends
      have more := (exceedsCount exceeds.1).mp exceeds
      obtain rfl : final = 0 := by omega
      rfl
  · rintro ⟨here, level⟩
    have even := depthCount level
    refine ⟨(exceedsCount here).mpr (by omega), fun j exceeds => ?_⟩
    by_contra! before
    have none := depthNone.mpr ⟨j, exceedsTake.mpr ⟨before, exceeds⟩⟩
    rw [level] at none
    contradiction

end

inductive Judged (depth : Nat) (stream : List (Nat × Char)) : Except Fault Unit → Prop where
  | even (ends : braceDepth depth (stream.map Prod.snd) = some 0) : Judged depth stream (.ok ())
  | stopped {i number : Nat} (here : stream[i]? = some (number, '\x7d'))
      (level : braceDepth depth ((stream.take i).map Prod.snd) = some 0) :
      Judged depth stream (.error (.unbalanced (some number)))
  | opened {more : Nat} (ends : braceDepth depth (stream.map Prod.snd) = some (more + 1)) :
      Judged depth stream (.error (.unbalanced none))

theorem Judged.behind {depth next : Nat} {front stream : List (Nat × Char)} {result : Except Fault Unit}
    (judged : Judged next stream result) (leads : braceDepth depth (front.map Prod.snd) = some next) :
    Judged depth (front ++ stream) result := by
  cases judged with
  | even ends => exact .even (by rw [List.map_append, depthAppend, leads, Option.bind_some, ends])
  | @stopped i number here level =>
    have place : (front ++ stream)[front.length + i]? = some (number, '\x7d') := by
      rw [List.getElem?_append_right (Nat.le_add_right ..), Nat.add_sub_cancel_left, here]
    refine .stopped place ?_
    rw [List.take_length_add_append, List.map_append, depthAppend, leads, Option.bind_some, level]
  | opened ends => exact .opened (by rw [List.map_append, depthAppend, leads, Option.bind_some, ends])

theorem judged (state : LineState) (depth number : Nat) (lines : List (List Char)) :
    Judged depth (bracesOf state number lines) (checkBraces state depth number lines) := by
  induction lines generalizing state depth number with
  | nil =>
    cases depth with
    | zero => exact .even rfl
    | succ depth => exact .opened rfl
  | cons line rest ih =>
    have numbered (text : List Char) : (text.map (number, ·)).map Prod.snd = text := by
      rw [List.map_map]
      exact List.map_id _
    have depths := depthBraces depth (codeOf line state).text
    rw [bracesOfLine, checkBraces]
    cases ends : braceDepth depth (codeOf line state).text with
    | none =>
      rw [ends] at depths
      obtain ⟨early, late, parts, level⟩ := depthStops depths
      have place : (early.map (number, ·)).length = early.length := List.length_map _
      rw [parts, List.map_append, List.map_cons, List.append_assoc]
      refine @Judged.stopped _ _ early.length _ (by simp) ?_
      rw [List.take_left' place, numbered, level]
    | some next => exact (ih _ next _).behind (by rw [numbered, depths, ends])

section
variable {stream : List (Nat × Char)}

theorem judgedEven (every : ∀ p ∈ stream, isBrace p.2 = true) :
    Judged 0 stream (.ok ()) ↔ Matched (stream.map Prod.snd) := by
  rw [matchedIff (List.forall_mem_map.mpr every)]
  constructor
  · intro judged
    cases judged with
    | even ends => exact ends
  · exact .even

theorem judgedFirst {n : Nat} : Judged 0 stream (.error (.unbalanced (some n))) ↔
    ∃ i, IsLeast {i | Exceeds (stream.map Prod.snd) i} i ∧ stream[i]? = some (n, '\x7d') := by
  constructor
  · intro judged
    cases judged with
    | @stopped i _ here level =>
      refine ⟨i, exceedsFirst.mpr ⟨by rw [List.getElem?_map, here]; rfl, ?_⟩, here⟩
      rwa [← List.map_take]
  · rintro ⟨i, first, here⟩
    refine .stopped here ?_
    rw [List.map_take]
    exact (exceedsFirst.mp first).2

theorem judgedOpened : Judged 0 stream (.error (.unbalanced none)) ↔ (∀ i, ¬ Exceeds (stream.map Prod.snd) i) ∧
    (stream.map Prod.snd).count '\x7d' < (stream.map Prod.snd).count '\x7b' := by
  constructor
  · intro judged
    cases judged with
    | opened ends =>
      have counts := depthCount ends
      refine ⟨fun i exceeds => ?_, by omega⟩
      rw [exceedsNone exceeds] at ends
      contradiction
  · rintro ⟨none, more⟩
    cases ends : braceDepth 0 (stream.map Prod.snd) with
    | none =>
      obtain ⟨i, exceeds⟩ := depthNone.mp ends
      exact absurd exceeds (none i)
    | some final =>
      have counts := depthCount ends
      cases final with
      | zero => omega
      | succ more => exact .opened ends

theorem Judged.unique {result result' : Except Fault Unit} (judged : Judged 0 stream result)
    (judged' : Judged 0 stream result') : result = result' := by
  have stops {n : Nat} (judged : Judged 0 stream (.error (.unbalanced (some n)))) :
      braceDepth 0 (stream.map Prod.snd) = none := by
    obtain ⟨i, first, -⟩ := judgedFirst.mp judged
    exact exceedsNone first.1
  cases judged with
  | even ends =>
    cases judged' with
    | even ends' => rfl
    | stopped here level => cases (stops (.stopped here level)).symm.trans ends
    | opened ends' => cases ends.symm.trans ends'
  | stopped here level =>
    have none := stops (.stopped here level)
    cases judged' with
    | even ends => cases none.symm.trans ends
    | stopped here' level' =>
      obtain ⟨i, first, line⟩ := judgedFirst.mp (.stopped here level)
      obtain ⟨j, first', line'⟩ := judgedFirst.mp (.stopped here' level')
      obtain rfl : i = j := first.unique first'
      cases line.symm.trans line'
      rfl
    | opened ends => cases none.symm.trans ends
  | opened ends =>
    cases judged' with
    | even ends' => cases ends.symm.trans ends'
    | stopped here level => cases (stops (.stopped here level)).symm.trans ends
    | opened ends' => rfl

end

theorem matchedExactly (d : Document) :
    (d.checkBalance = .ok () ↔ Matched (d.codeBraces.map Prod.snd)) ∧
      (∀ n, d.checkBalance = .error (.unbalanced (some n)) ↔
        ∃ i, IsLeast {i | Exceeds (d.codeBraces.map Prod.snd) i} i ∧ d.codeBraces[i]? = some (n, '\x7d')) ∧
      (d.checkBalance = .error (.unbalanced none) ↔ (∀ i, ¬ Exceeds (d.codeBraces.map Prod.snd) i) ∧
        (d.codeBraces.map Prod.snd).count '\x7d' < (d.codeBraces.map Prod.snd).count '\x7b') ∧
      (d.checkBalance = .ok () ∨ ∃ line, d.checkBalance = .error (.unbalanced line)) := by
  have verdict : Judged 0 d.codeBraces d.checkBalance := judged {} 0 1 d.lines
  have decided (result : Except Fault Unit) : d.checkBalance = result ↔ Judged 0 d.codeBraces result :=
    ⟨fun same => same ▸ verdict, fun judged => verdict.unique judged⟩
  refine ⟨?_, fun n => (decided _).trans judgedFirst, (decided _).trans judgedOpened, ?_⟩
  · exact (decided _).trans (judgedEven (bracesOfBrace {} 1 d.lines))
  · generalize d.checkBalance = result at verdict
    cases verdict with
    | even ends => exact .inl rfl
    | stopped here level => exact .inr ⟨_, rfl⟩
    | opened ends => exact .inr ⟨_, rfl⟩

example : (Document.ofText "f() \x7b // \x7b\n\x7d\n\x7d \x7b".toList).checkBalance = .error (.unbalanced (some 3)) := by
  decide +kernel

end DebugSweep.Edit
