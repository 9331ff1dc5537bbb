import DebugSweep.Proofs.Nesting
import DebugSweep.Proofs.Spans

/-! Where a line of code is divided. Brackets, expression braces, tags and block braces are described by
themselves, without the scanner. Main statement: candidates are exactly the stretches of code up to each
semicolon that stands in no bracket, from the line's start or the boundary before it on. -/
namespace DebugSweep.Lexis
open Text

/-- Text, given backwards, behind which a brace belongs to an expression: a dollar sign, an arrow, two colons
or a variable's name. -/
inductive Expects : List Char → Prop where
  | dollar (more : List Char) : Expects ('$' :: more)
  | arrow (more : List Char) : Expects ('>' :: '-' :: more)
  | colons (more : List Char) : Expects (':' :: ':' :: more)
  | named {name : List Char} {first : Char} (word : name.all isWord = true)
      (letter : first.isAlpha = true ∨ first = '_') (more : List Char) : Expects (name ++ first :: '$' :: more)

inductive Opens (before : List Char) : Char → Char → Prop where
  | round : Opens before '(' ')'
  | square : Opens before '[' ']'
  | brace (expects : Expects before) : Opens before '\x7b' '\x7d'

/-- The closers of the brackets that are open behind a text, innermost first. Only the innermost bracket can be
closed; any other closer is passed over. -/
inductive Open : List Char → List Char → Prop where
  | start : Open [] []
  | opens {before closers : List Char} {c closer : Char} (outer : Open before closers)
      (opener : Opens before c closer) : Open (c :: before) (closer :: closers)
  | closes {before closers : List Char} {c : Char} (inner : Open before (c :: closers))
      (plain : ∀ closer, ¬ Opens before c closer) : Open (c :: before) closers
  | passes {before closers : List Char} {c : Char} (same : Open before closers)
      (plain : ∀ closer, ¬ Opens before c closer) (other : closers.head? ≠ some c) : Open (c :: before) closers

def Free (code : List Char) (i : Nat) : Prop := Open (code.take i).reverse []

/-- So many characters that end a candidate stand at the place: a semicolon, a brace of a block or a tag. -/
inductive Boundary (code : List Char) (i : Nat) : Nat → Prop where
  | semicolon (here : code[i]? = some ';') : Boundary code i 1
  | opening (here : code[i]? = some '\x7b') (block : ¬ Expects (code.take i).reverse) : Boundary code i 1
  | closing (here : code[i]? = some '\x7d') : Boundary code i 1
  | tag {n : Nat} (tag : Tag (code.drop i) n) : Boundary code i n

structure Segment.Exact (code : List Char) (g : Segment) : Prop where
  order : g.start ≤ g.stop
  inside : g.stop < code.length
  text : g.text = (code.take (g.stop + 1)).drop g.start
  ends : code[g.stop]? = some ';'
  free : Free code g.stop
  whole : ∀ i, g.start ≤ i → i < g.stop → Free code i → ∀ n, ¬ Boundary code i n
  first : g.start = 0 ∨ ∃ i n, Free code i ∧ Boundary code i n ∧ g.start = i + n

theorem letterWord {c : Char} (letter : c.isAlpha = true ∨ c = '_') : isWord c = true := by
  rcases letter with letter | rfl
  · have small : c.toNat < 0x80 := by
      delta Char.isAlpha Char.isUpper Char.isLower at letter
      simp only [Bool.or_eq_true, Bool.and_eq_true, decide_eq_true_eq, ge_iff_le, UInt32.le_iff_toNat_le] at letter
      change c.val.toNat < 128
      have capital : ('Z'.val).toNat = 90 := rfl
      have last : ('z'.val).toNat = 122 := rfl
      omega
    rw [isWord, if_pos small, Char.isAlphanum, letter]
    rfl
  · rfl

theorem variableIff (before : List Char) : variableIn before = true ↔
    ∃ name first more, before = name ++ first :: '$' :: more ∧ name.all isWord = true ∧
      (first.isAlpha = true ∨ first = '_') := by
  rw [variableIn, Bool.and_eq_true, Option.any_eq_true, beq_iff_eq]
  constructor
  · rintro ⟨⟨first, last, letter⟩, dollar⟩
    obtain ⟨more, behind⟩ := List.head?_eq_some_iff.mp dollar
    obtain ⟨name, parts⟩ := List.getLast?_eq_some_iff.mp last
    have words : (name ++ [first]).all isWord = true := parts ▸ List.all_takeWhile
    rw [List.all_append, Bool.and_eq_true] at words
    refine ⟨name, first, more, ?_, words.1, by simpa using letter⟩
    rw [← List.takeWhile_append_dropWhile (p := isWord) (l := before), parts, behind, List.append_assoc]
    rfl
  · rintro ⟨name, first, more, rfl, words, letter⟩
    have every : ∀ c ∈ name ++ [first], isWord c = true := by
      intro c member
      rcases List.mem_append.mp member with early | last
      · exact List.all_eq_true.mp words c early
      · exact List.mem_singleton.mp last ▸ letterWord letter
    rw [List.append_cons, List.takeWhile_append_of_pos every, List.dropWhile_append_of_pos every]
    exact ⟨⟨first, by simp [isWord], by simpa using letter⟩, rfl⟩

section
variable {before : List Char} (flat : '\n' ∉ before)
include flat

theorem expectsIff : opensExpression before = true ↔ Expects before := by
  have broken : before.head? ≠ some '\n' := fun feed => flat (List.mem_of_mem_head? feed)
  rw [opensIff, variableBehind broken, Bool.or_eq_true, Bool.or_eq_true, Bool.or_eq_true, beq_iff_eq,
    List.isPrefixOf_iff_prefix, List.isPrefixOf_iff_prefix, variableIff]
  constructor
  · rintro (((dollar | ⟨more, rfl⟩) | ⟨more, rfl⟩) | ⟨name, first, more, rfl, words, letter⟩)
    · obtain ⟨more, rfl⟩ := List.head?_eq_some_iff.mp dollar
      exact .dollar more
    · exact .arrow more
    · exact .colons more
    · exact .named words letter more
  · intro expects
    cases expects with
    | dollar more => exact .inl (.inl (.inl rfl))
    | arrow more => exact .inl (.inl (.inr ⟨more, rfl⟩))
    | colons more => exact .inl (.inr ⟨more, rfl⟩)
    | named words letter more => exact .inr ⟨_, _, more, rfl, words, letter⟩

theorem opensBehind {c closer : Char} : opens? before c = some closer ↔ Opens before c closer := by
  rw [opensSome, expectsIff flat]
  constructor
  · rintro (⟨rfl, rfl⟩ | ⟨rfl, rfl⟩ | ⟨⟨rfl, expects⟩, rfl⟩)
    · exact .round
    · exact .square
    · exact .brace expects
  · intro opener
    cases opener with
    | round => exact .inl ⟨rfl, rfl⟩
    | square => exact .inr (.inl ⟨rfl, rfl⟩)
    | brace expects => exact .inr (.inr ⟨⟨rfl, expects⟩, rfl⟩)

theorem plainBehind {c : Char} (plain : opens? before c = none) (closer : Char) : ¬ Opens before c closer := by
  intro opener
  rw [(opensBehind flat).mpr opener] at plain
  contradiction

end

theorem Opens.unique {before : List Char} {c closer closer' : Char} (opener : Opens before c closer)
    (opener' : Opens before c closer') : closer = closer' := by
  cases opener <;> cases opener' <;> rfl

theorem Open.unique {before closers closers' : List Char} (known : Open before closers)
    (known' : Open before closers') : closers = closers' := by
  induction known generalizing closers' with
  | start =>
    cases known'
    rfl
  | opens outer opener ih =>
    cases known' with
    | opens outer' opener' => rw [opener.unique opener', ih outer']
    | closes _ plain => exact absurd opener (plain _)
    | passes _ plain => exact absurd opener (plain _)
  | closes inner plain ih =>
    cases known' with
    | opens _ opener => exact absurd opener (plain _)
    | closes inner' => exact (List.cons.inj (ih inner')).2
    | passes same _ other => exact absurd (by rw [← ih same]; rfl) other
  | passes same plain other ih =>
    cases known' with
    | opens _ opener => exact absurd opener (plain _)
    | closes inner' => exact absurd (by rw [ih inner']; rfl) other
    | passes same' => exact ih same'

theorem Opens.mark {before : List Char} {c closer : Char} (opener : Opens before c closer) :
    isTagMark c = false ∧ c ≠ ';' ∧ c ≠ '\x7d' := by
  cases opener <;> exact ⟨rfl, by decide, by decide⟩

theorem Boundary.shown {code rest : List Char} {i n : Nat} {c : Char} (boundary : Boundary code i n)
    (here : code[i]? = some c) (ahead : code.drop i = c :: rest) :
    c = ';' ∨ c = '\x7d' ∨ (c = '\x7b' ∧ ¬ Expects (code.take i).reverse) ∨ 0 < tagLength (c :: rest) := by
  cases boundary with
  | semicolon mark => exact .inl (Option.some.inj (here.symm.trans mark))
  | closing mark => exact .inr (.inl (Option.some.inj (here.symm.trans mark)))
  | opening mark block => exact .inr (.inr (.inl ⟨Option.some.inj (here.symm.trans mark), block⟩))
  | tag tag =>
    rw [ahead] at tag
    obtain ⟨some, size⟩ := tagIff.mp tag
    exact .inr (.inr (.inr (size ▸ some)))

namespace Cutter

structure Divided (code : List Char) (s : Cutter) (rest : List Char) : Prop where
  split : code = s.before.reverse ++ rest
  offset : s.offset = s.before.length
  brackets : Open s.before s.closers
  passing : 0 < s.skip → s.closers = [] ∧ s.start = s.offset
  marks : ∀ c ∈ rest.take s.skip, isTagMark c = true
  whole : ∀ i, s.start ≤ i → i < s.offset → Free code i → ∀ n, ¬ Boundary code i n
  first : s.start + s.skip = 0 ∨ ∃ i n, Free code i ∧ Boundary code i n ∧ s.start + s.skip = i + n

section
variable {code : List Char} {s : Cutter} {c : Char} {rest : List Char} (divided : s.Divided code (c :: rest))
include divided

theorem Divided.here : code[s.offset]? = some c ∧ code.drop s.offset = c :: rest ∧
    (code.take s.offset).reverse = s.before := by
  have size : s.before.reverse.length = s.offset := by rw [List.length_reverse, divided.offset]
  rw [divided.split]
  refine ⟨?_, List.drop_left' size, by rw [List.take_left' size, List.reverse_reverse]⟩
  rw [← size, List.getElem?_append_right (Nat.le_refl _), Nat.sub_self]
  rfl

theorem Divided.freeIff : Free code s.offset ↔ s.closers = [] := by
  rw [Free, divided.here.2.2]
  constructor
  · exact fun free => divided.brackets.unique free
  · exact fun closed => closed ▸ divided.brackets

theorem Divided.further : code = (c :: s.before).reverse ++ rest := by
  rw [List.reverse_cons, List.append_assoc]
  exact divided.split

theorem Divided.kept {closers : List Char} (still : s.skip = 0) (turned : Open (c :: s.before) closers)
    (unbroken : s.closers = [] → ∀ n, ¬ Boundary code s.offset n) :
    Divided code { s.keep c with closers } rest := by
  refine ⟨divided.further, congrArg (· + 1) divided.offset, turned, fun passing => ?_, by simp [keep, still], ?_,
    divided.first⟩
  · simp [keep, still] at passing
  · intro i first last free
    rcases Nat.lt_succ_iff_lt_or_eq.mp last with early | rfl
    · exact divided.whole i first early free
    · exact unbroken (divided.freeIff.mp free)

theorem Divided.passed (skip : Nat) (done : List Segment) (closed : s.closers = [])
    (plain : ∀ closer, ¬ Opens s.before c closer) (marks : ∀ d ∈ rest.take skip, isTagMark d = true)
    (first : ∃ i n, Free code i ∧ Boundary code i n ∧ s.offset + 1 + skip = i + n) :
    Divided code { s.cut c with skip, done } rest := by
  refine ⟨divided.further, congrArg (· + 1) divided.offset, ?_, fun _ => ⟨closed, rfl⟩, marks, ?_, .inr first⟩
  · have same := divided.brackets
    rw [closed] at same
    show Open (c :: s.before) s.closers
    rw [closed]
    exact .passes same plain (by simp)
  · intro i low high
    exact absurd (Nat.lt_of_le_of_lt low high) (Nat.lt_irrefl _)

theorem Divided.step (flat : '\n' ∉ code) : (s.step c rest).Divided code rest := by
  obtain ⟨here, ahead, behind⟩ := divided.here
  have flat : '\n' ∉ s.before := by
    intro feed
    refine flat ?_
    rw [divided.split]
    exact List.mem_append_left _ (List.mem_reverse.mpr feed)
  generalize next : s.step c rest = s'
  cases next ▸ s.reads c rest with
  | passes passing =>
    obtain ⟨closed, start⟩ := divided.passing passing
    obtain ⟨mark, marks⟩ := marksBehind passing divided.marks
    refine divided.passed _ _ closed (fun closer opener => markPlain mark opener.mark.1 rfl) marks ?_
    have first := divided.first
    rw [show s.offset + 1 + (s.skip - 1) = s.start + s.skip by omega]
    exact first.resolve_left (by omega)
  | opens still opener =>
    have opener := (opensBehind flat).mp opener
    refine divided.kept still (.opens divided.brackets opener) fun _ n boundary => ?_
    rcases boundary.shown here ahead with same | same | ⟨rfl, block⟩ | tag
    · exact opener.mark.2.1 same
    · exact opener.mark.2.2 same
    · cases opener with
      | brace expects => exact block (behind ▸ expects)
    · exact markPlain (marksBehind tag (tagHere tag).marks).1 opener.mark.1 rfl
  | closes still plain innermost =>
    refine divided.kept still (.closes (innermost ▸ divided.brackets) (plainBehind flat plain)) fun closed => ?_
    simp [innermost] at closed
  | inside still plain within other =>
    have same := Open.passes divided.brackets (plainBehind flat plain) other
    exact divided.kept still same fun closed => absurd closed within
  | tag still plain closed tag =>
    have boundary : Boundary code s.offset (tagLength (c :: rest)) := .tag (by rw [ahead]; exact tagHere tag)
    refine divided.passed _ _ closed (plainBehind flat plain) (marksBehind tag (tagHere tag).marks).2 ?_
    exact ⟨s.offset, _, divided.freeIff.mpr closed, boundary, by omega⟩
  | brace still plain closed brace =>
    have boundary : Boundary code s.offset 1 := by
      rcases brace with rfl | rfl
      · exact .opening here (behind ▸ fun expects => plainBehind flat plain _ (.brace expects))
      · exact .closing here
    refine divided.passed s.skip s.done closed (plainBehind flat plain) (by simp [still]) ?_
    exact ⟨s.offset, 1, divided.freeIff.mpr closed, boundary, by omega⟩
  | semicolon still closed semicolon =>
    subst semicolon
    have plain (closer : Char) : ¬ Opens s.before ';' closer := fun opener => opener.mark.2.1 rfl
    refine divided.passed s.skip _ closed plain (by simp [still]) ?_
    exact ⟨s.offset, 1, divided.freeIff.mpr closed, .semicolon here, by omega⟩
  | outside still plain closed free others =>
    have plain := plainBehind flat plain
    have same : Open (c :: s.before) s.closers := .passes divided.brackets plain (by simp [closed])
    refine divided.kept still same fun _ n boundary => ?_
    rcases boundary.shown here ahead with same | same | ⟨same, -⟩ | tag
    · exact others.2.2 same
    · exact others.2.1 same
    · exact others.1 same
    · omega

end

section
variable {code : List Char} (flat : '\n' ∉ code)
include flat

theorem Divided.through {s : Cutter} {text rest : List Char} (divided : s.Divided code (text ++ rest)) :
    (s.through rest text).Divided code rest := by
  induction text generalizing s with
  | nil => exact divided
  | cons c text ih => exact ih (divided.step flat)

theorem divided {text rest : List Char} (parts : code = text ++ rest) :
    Divided code (Cutter.through {} rest text) rest := by
  have start : Divided code {} (text ++ rest) := ⟨parts, rfl, .start, nofun, by simp, nofun, .inl rfl⟩
  exact start.through flat

end
end Cutter

section
variable {code : List Char} (flat : '\n' ∉ code)
include flat

theorem segmentExact {g : Segment} (member : g ∈ segments code) : g.Exact code := by
  have lies := segmentsLie code g member
  have ends := segmentEnds member
  obtain ⟨early, late, split⟩ := List.append_of_mem member
  have runs : Cutter.run {} code = [].reverse ++ (early ++ g :: late) := split
  obtain ⟨u, v, parts, still, closed, done, _⟩ := Cutter.cutsOff runs
  have divided := Cutter.divided flat parts
  have first := divided.first
  rw [still, Nat.add_zero] at first
  obtain ⟨rfl, -⟩ := List.cons.inj done
  exact ⟨lies.order, lies.inside, lies.text, ends, divided.freeIff.mpr closed, divided.whole, first⟩

theorem semicolonEnds {i : Nat} (semicolon : code[i]? = some ';') (free : Free code i) :
    ∃ g ∈ segments code, g.stop = i := by
  have inside := (List.getElem?_eq_some_iff.mp semicolon).1
  have parts : code = code.take i ++ ';' :: code.drop (i + 1) := splitHere semicolon
  have divided := Cutter.divided flat parts
  have offset := Cutter.throughOffset {} (';' :: code.drop (i + 1)) (code.take i)
  have runs := Cutter.runThrough {} (code.take i) (';' :: code.drop (i + 1))
  rw [← parts, Cutter.run] at runs
  generalize Cutter.through {} (';' :: code.drop (i + 1)) (code.take i) = s at *
  have offset : s.offset = i := by simpa [Nat.min_eq_left (Nat.le_of_lt inside)] using offset
  have closed : s.closers = [] := divided.freeIff.mp (offset ▸ free)
  have still : s.skip = 0 := by
    by_contra passing
    exact absurd (marksBehind (Nat.pos_of_ne_zero passing) divided.marks).1 (by decide)
  obtain ⟨new, adds⟩ := Cutter.runAdds s.finish (code.drop (i + 1))
  rw [Cutter.stepSemicolon still closed, adds] at runs
  refine ⟨⟨(';' :: s.pending).reverse, s.start, s.offset⟩, ?_, offset⟩
  rw [segments, runs]
  exact List.mem_append_left _ (List.mem_reverse.mpr List.mem_cons_self)

end

theorem stopUnique {code : List Char} {g g' : Segment} (member : g ∈ segments code) (member' : g' ∈ segments code)
    (same : g.stop = g'.stop) : g = g' := by
  have apart : (segments code).Pairwise (fun a b => a.stop ≠ b.stop) := by
    refine (segmentsFollow code).imp_of_mem fun _ later follow => ?_
    have order := (segmentsLie code _ later).order
    omega
  have distinct : ((segments code).map Segment.stop).Nodup := List.pairwise_map.mpr apart
  exact List.inj_on_of_nodup_map distinct member member' same

theorem segmentsExact {code : List Char} (flat : '\n' ∉ code) :
    (∀ g ∈ segments code, g.Exact code) ∧ (segments code).Pairwise (fun a b => a.stop < b.start) ∧
      ∀ i, code[i]? = some ';' → Free code i → ∃! g, g ∈ segments code ∧ g.stop = i := by
  refine ⟨fun g member => segmentExact flat member, segmentsFollow code, fun i semicolon free => ?_⟩
  obtain ⟨g, member, stop⟩ := semicolonEnds flat semicolon free
  refine ⟨g, ⟨member, stop⟩, ?_⟩
  rintro g' ⟨member', stop'⟩
  exact stopUnique member' member (stop'.trans stop.symm)

def knottedLine : List Char := "if ($a->\x7bf([)]; x)\x7d); $b; \x7d ?> (]); [<?php ;] $c;".toList

theorem knottedLineExact :
    (∀ g ∈ segments knottedLine, g.Exact knottedLine) ∧ (segments knottedLine).map Segment.stop = [20, 24, 34, 48] ∧
      ∃! g, g ∈ segments knottedLine ∧ g.stop = 34 := by
  have exactly := @segmentsExact knottedLine (by decide +kernel)
  have stops : (segments knottedLine).map Segment.stop = [20, 24, 34, 48] := by decide +kernel
  obtain ⟨g, member, stop⟩ := List.mem_map.mp (stops ▸ (by decide) : 34 ∈ (segments knottedLine).map Segment.stop)
  have free : Free knottedLine 34 := stop ▸ (exactly.1 g member).free
  exact ⟨exactly.1, stops, exactly.2.2 34 (by decide +kernel) free⟩

end DebugSweep.Lexis
