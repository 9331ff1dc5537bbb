import DebugSweep.Proofs.Enclosure
import DebugSweep.Proofs.Trimming

/-! The place of a statement in its line. Main statement: a statement whose brackets are nested and whose
tokens stand in the line in one piece is located from the first character of its candidate to behind the
semicolon of its last one. -/
namespace DebugSweep.Lexis
open Text

theorem keptShift (offset k : Nat) (text : List Char) (classes : List CharClass) :
    kept (offset + k) text classes = (kept offset text classes).map (fun (o, c) => (o + k, c)) := by
  induction text generalizing offset classes with
  | nil => rfl
  | cons c text ih =>
    cases classes with
    | nil => rfl
    | cons cls classes =>
      have next := ih (offset + 1) classes
      rw [Nat.add_right_comm] at next
      simp only [kept, next]
      split <;> rfl

theorem keptSplit (offset k : Nat) (text : List Char) (classes : List CharClass) :
    kept offset text classes =
      kept offset (text.take k) (classes.take k) ++ kept (offset + k) (text.drop k) (classes.drop k) := by
  induction k generalizing offset text classes with
  | zero => simp [kept]
  | succ k ih =>
    cases text with
    | nil => rfl
    | cons c text =>
      cases classes with
      | nil => simp [kept]
      | cons cls classes =>
        have next := ih (offset + 1) text classes
        rw [Nat.add_assoc, Nat.add_comm 1 k] at next
        simp only [kept, List.take_succ_cons, List.drop_succ_cons, next]
        split <;> rfl

theorem keptBehind {offset i k : Nat} {line : List Char} {classes : List CharClass} {c : Char}
    (found : (kept offset line classes)[i]? = some (offset + k, c)) :
    (kept offset line classes).drop i = kept (offset + k) (line.drop k) (classes.drop k) := by
  have front := keptBefore found
  have inside := (List.getElem?_eq_some_iff.mp found).1
  have size := congrArg List.length front
  rw [List.length_take, Nat.min_eq_left (Nat.le_of_lt inside)] at size
  rw [keptSplit offset k line classes]
  exact List.drop_left' size.symm

inductive Edge : List Char → Prop
  | start : Edge []
  | mark {c : Char} (mark : c = ';' ∨ c = '\x7b' ∨ c = '\x7d') (more : List Char) : Edge (c :: more)
  | tag {tag : List Char} (spelled : tag.map Char.toLower ∈ ["?>".toList, "<?php".toList, "<?".toList])
      (more : List Char) : Edge (tag.reverse ++ more)

theorem tagEdge {text : List Char} (tag : 0 < tagLength text) (more : List Char) :
    Edge ((text.take (tagLength text)).reverse ++ more) := by
  apply Edge.tag
  have here := tagHere tag
  generalize tagLength text = n at *
  cases here with
  | closing spelled =>
    rw [show (text.take 2).map Char.toLower = "?>".toList from spelled]
    decide
  | opening spelled =>
    rw [show (text.take 5).map Char.toLower = "<?php".toList from spelled]
    decide
  | short spelled =>
    rw [show (text.take 2).map Char.toLower = "<?".toList from spelled]
    decide

theorem Edge.word {x : Char} {more : List Char} (edge : Edge (x :: more)) (word : isWord x = true) :
    ∃ tag more' : List Char, x :: more = tag.reverse ++ more' ∧ tag.map Char.toLower = "<?php".toList := by
  generalize given : x :: more = before at edge
  cases edge with
  | start => contradiction
  | mark mark =>
    obtain ⟨rfl, rfl⟩ := List.cons.inj given
    rcases mark with rfl | rfl | rfl <;> simp [isWord] at word
  | tag spelled more' =>
    rename_i tag
    refine ⟨tag, more', rfl, ?_⟩
    have last : ∀ a b : Char, b.toNat < 97 → isWord b = false → tag.map Char.toLower ≠ [a, b] := by
      intro a b plain other same
      simp only [List.map_eq_cons_iff, List.map_eq_nil_iff] at same
      obtain ⟨a', _, rfl, _, b', _, rfl, lower, rfl⟩ := same
      obtain ⟨rfl, -⟩ := List.cons.inj given
      rw [lowerPlain plain lower, other] at word
      contradiction
    simp only [List.mem_cons, List.not_mem_nil, or_false] at spelled
    rcases spelled with same | same | same
    · exact absurd same (last '?' '>' (by decide) (by decide))
    · exact same
    · exact absurd same (last '<' '?' (by decide) (by decide))

structure Cutter.Edged (s : Cutter) (rest : List Char) : Prop where
  passing : 0 < s.skip → s.pending = []
  edge : ∃ edge, s.before = s.pending ++ edge ∧ Edge ((rest.take s.skip).reverse ++ edge)

theorem Cutter.Edged.step {s : Cutter} {c : Char} {rest : List Char} (edged : s.Edged (c :: rest)) :
    (s.step c rest).Edged rest := by
  obtain ⟨edge, split, known⟩ := edged.edge
  generalize next : s.step c rest = s'
  cases next ▸ s.stepped c rest with
  | pass passing =>
    refine ⟨fun _ => rfl, c :: s.before, rfl, ?_⟩
    obtain ⟨skip, count⟩ : ∃ skip, s.skip = skip + 1 := ⟨s.skip - 1, by omega⟩
    rw [count, List.take_succ_cons, List.reverse_cons, List.append_assoc] at known
    rw [split, edged.passing passing]
    simpa [cut, count] using known
  | keep still =>
    refine ⟨fun passing => ?_, edge, by simp [Cutter.keep, split], by simpa [Cutter.keep, still] using known⟩
    simp [Cutter.keep, still] at passing
  | tag still closed tag =>
    refine ⟨fun _ => rfl, c :: s.before, rfl, ?_⟩
    have whole := tagEdge tag s.before
    obtain ⟨size, count⟩ : ∃ size, tagLength (c :: rest) = size + 1 := ⟨_, (Nat.sub_add_cancel tag).symm⟩
    rw [count, List.take_succ_cons, List.reverse_cons, List.append_assoc] at whole
    simpa [cut, count] using whole
  | brace still closed brace =>
    exact ⟨fun _ => rfl, c :: s.before, rfl, by simpa [cut, still] using Edge.mark (.inr brace) s.before⟩
  | done still closed semicolon =>
    exact ⟨fun _ => rfl, c :: s.before, rfl, by simpa [cut, still] using Edge.mark (.inl semicolon) s.before⟩

theorem Cutter.Edged.through {s : Cutter} {text rest : List Char} (edged : s.Edged (text ++ rest)) :
    (s.through rest text).Edged rest := by
  induction text generalizing s with
  | nil => exact edged
  | cons c text ih => exact ih edged.step

theorem Cutter.throughBefore (s : Cutter) (rest text : List Char) :
    (s.through rest text).before = text.reverse ++ s.before := by
  induction text generalizing s with
  | nil => rfl
  | cons c text ih => rw [Cutter.through, ih, Cutter.stepBefore, List.reverse_cons, List.append_assoc]; rfl

theorem segmentEdge {code : List Char} {g : Segment} (member : g ∈ segments code) :
    Edge (code.take g.start).reverse := by
  obtain ⟨early, late, split⟩ := List.append_of_mem member
  have runs : Cutter.run {} code = [].reverse ++ (early ++ g :: late) := split
  obtain ⟨u, v, rfl, still, _, done, _⟩ := Cutter.cutsOff runs
  obtain ⟨rfl, -⟩ := List.cons.inj done
  have start : Cutter.Edged {} (u ++ ';' :: v) := ⟨fun _ => rfl, [], rfl, .start⟩
  obtain ⟨edge, before, known⟩ := start.through.edge
  have level := Cutter.throughLevel (s := {}) rfl (';' :: v) u
  have offset := Cutter.throughOffset {} (';' :: v) u
  rw [Cutter.throughBefore, List.append_nil] at before
  generalize Cutter.through {} (';' :: v) u = s at *
  rw [still, List.take_zero, List.reverse_nil, List.nil_append] at known
  have parts : u = edge.reverse ++ s.pending.reverse := by rw [← List.reverse_append, ← before, List.reverse_reverse]
  have size := congrArg List.length parts
  simp only [List.length_append, List.length_reverse] at size
  have front : (u ++ ';' :: v).take s.start = edge.reverse := by
    rw [parts, List.append_assoc]
    exact List.take_left' (by rw [List.length_reverse]; simp at offset; omega)
  rwa [front, List.reverse_reverse]

theorem tokenPrefix {token text rest : List Char} (dropped : dropToken? token text = some rest) :
    ∃ front, text = front ++ rest ∧ front.length = token.length ∧
      ∀ rest', dropToken? token (front ++ rest') = some rest' := by
  induction token generalizing text with
  | nil =>
    cases dropped
    exact ⟨[], rfl, rfl, fun _ => rfl⟩
  | cons t token ih =>
    cases text with
    | nil => contradiction
    | cons c text =>
      rw [dropToken?] at dropped
      split at dropped
      · rename_i same
        obtain ⟨front, rfl, size, again⟩ := ih dropped
        refine ⟨c :: front, rfl, by simp [size], fun rest' => ?_⟩
        rw [List.cons_append, dropToken?, if_pos same, again]
      · contradiction

theorem leadingText {code : List Char} {g : Segment} (lies : g.Lies code) :
    code.drop g.leading = dropBlanks g.text ++ code.drop (g.stop + 1) := by
  have inside := lies.inside
  have order := lies.order
  have short := (List.takeWhile_prefix (l := g.text) isBlank).length_le
  have size := congrArg List.length lies.text
  simp only [List.length_drop, List.length_take] at size
  have shown : dropBlanks g.text = (code.take (g.stop + 1)).drop g.leading := by
    have rest := List.takeWhile_append_dropWhile (p := isBlank) (l := g.text)
    have behind := (congrArg (List.drop (g.text.takeWhile isBlank).length) rest.symm).trans List.drop_left
    rw [Segment.leading, ← List.drop_drop, ← lies.text, behind]
    rfl
  rw [shown, Segment.leading, ← List.drop_append_of_le_length (by simp; omega), List.take_append_drop]

theorem blankBefore {code : List Char} {g : Segment} {j : Nat} {x : Char} (lies : g.Lies code)
    (first : g.start ≤ j) (last : j < g.leading) (here : code[j]? = some x) : isBlank x = true := by
  unfold Segment.leading at last
  have short := (List.takeWhile_prefix (l := g.text) isBlank).length_le
  have size := congrArg List.length lies.text
  simp only [List.length_drop, List.length_take] at size
  have inside : g.text[j - g.start]? = some x := by
    rw [lies.text, List.getElem?_drop, List.getElem?_take, if_pos (by omega), Nat.add_sub_cancel' first, here]
  rw [← List.takeWhile_append_dropWhile (p := isBlank) (l := g.text),
    List.getElem?_append_left (by omega)] at inside
  exact List.mem_takeWhile_imp (List.mem_of_getElem? inside)

def Mode.Tame : Mode → Option Char → Prop
  | .literal closer _, _ => ∃ quote, closer = some quote ∧ isQuote quote = true
  | .comment inner, _ => inner = .code
  | .closing inner, next => inner = .code ∧ next = some '/'
  | _, _ => True

theorem Mode.Tame.step {mode : Mode} {c : Char} (tame : mode.Tame (some c)) (next : Option Char) :
    (mode.step c next).2.Tame next := by
  cases mode with
  | code =>
    simp only [Mode.step]
    split
    · exact ⟨c, rfl, by assumption⟩
    · split
      · trivial
      · split <;> trivial
  | literal closer escaped =>
    simp only [Mode.step]
    split
    · exact tame
    · split
      · exact tame
      · split
        · trivial
        · exact tame
  | comment inner =>
    simp only [Mode.step]
    split
    · rename_i ends
      exact ⟨tame, by simp_all⟩
    · exact tame
  | opening => rfl
  | closing inner =>
    obtain ⟨rfl, -⟩ := tame
    trivial
  | rest => trivial

theorem Mode.Tame.after {mode : Mode} {next : Option Char} {text : List Char}
    (tame : mode.Tame (text.head?.or next)) : (mode.after next text).Tame next := by
  induction text generalizing mode with
  | nil => exact tame
  | cons c text ih => exact ih (tame.step _)

theorem outsideTame {state : LineState} (outside : state.inString = false ∨ state.delimiter = none)
    (next : Option Char) : state.mode.Tame next := by
  have mode : state.mode = if state.inBlockComment then .comment .code else .code := by
    obtain ⟨comment, inString, delimiter⟩ := state
    rcases outside with rfl | rfl
    · rfl
    · cases inString <;> rfl
  rw [mode]
  split
  · rfl
  · trivial

theorem Mode.Tame.closes {mode : Mode} {c : Char} {next : Option Char} (tame : mode.Tame (some c))
    (back : (mode.step c next).2 = .code) (other : (mode.step c next).1 ≠ .code) : isWord c = false := by
  cases mode with
  | code => exact absurd ((codeStepIff c next).mpr back) other
  | literal closer escaped =>
    obtain ⟨quote, rfl, marks⟩ := tame
    simp only [Mode.step] at back
    split at back
    · contradiction
    · split at back
      · contradiction
      · split at back
        · rename_i same
          obtain rfl : quote = c := by simpa using same
          rcases (by simpa [isQuote] using marks : quote = '\'' ∨ quote = '"') with rfl | rfl <;> decide
        · contradiction
  | comment inner =>
    simp only [Mode.step] at back
    split at back <;> contradiction
  | opening => contradiction
  | closing inner =>
    obtain ⟨-, same⟩ := tame
    obtain rfl := Option.some.inj same
    decide
  | rest => contradiction

theorem codeStepWord {c : Char} (word : isWord c = true) (next : Option Char) :
    (Mode.step .code c next).1 = .code := by
  have other (d : Char) (plain : isWord d = false) : c ≠ d := by
    rintro rfl
    simp [plain] at word
  simp [Mode.step, isQuote, other '\'' (by decide), other '"' (by decide), other '#' (by decide),
    other '/' (by decide)]

end DebugSweep.Lexis

namespace DebugSweep.Scan.Row
open Lexis Text

section
variable {r : Row}

theorem codeBehind {i o : Nat} {c : Char} (found : r.code.chars[i]? = some (o, c)) :
    r.code.chars.drop i = (codeOf (r.line.drop o) {}).chars.map (fun (p, d) => (p + o, d)) := by
  have live := (codeMember.mp (List.mem_of_getElem? found)).2
  have chars := codeChars r.line r.state
  change r.code.chars = kept 0 r.line r.classes at chars
  rw [chars] at found ⊢
  rw [keptBehind (by rwa [Nat.zero_add]), classesBehind live, keptShift, codeChars, classifyReads]
  rfl

theorem endExact {i j o p : Nat} {c : Char} (first : r.code.chars[i]? = some (o, c))
    (last : r.code.chars[j]? = some (p, ';')) (order : i ≤ j)
    (nested : Nested ((r.code.text.take j).drop i)) (guarded : Guarded [] ((r.code.text.take j).drop i)) :
    statementEnd r.line o = p + 1 := by
  obtain ⟨inside, isLast⟩ := List.getElem?_eq_some_iff.mp last
  have split : r.code.chars.drop i = (r.code.chars.take j).drop i ++ (p, ';') :: r.code.chars.drop (j + 1) := by
    rw [← isLast, List.getElem_cons_drop, ← List.drop_append_of_le_length (by simp; omega),
      List.take_append_drop]
  rw [codeBehind first] at split
  obtain ⟨front, rest, chars, shifted, behind⟩ := List.map_eq_append_iff.mp split
  obtain ⟨⟨p', d⟩, back, rfl, here, -⟩ := List.map_eq_cons_iff.mp behind
  obtain ⟨rfl, rfl⟩ := Prod.mk.inj here
  have text : front.map Prod.snd = (r.code.text.take j).drop i := by
    rw [CodeLine.text, ← List.map_take, ← List.map_drop, ← shifted, List.map_map]
    rfl
  have found : findTerminator {} (codeOf (r.line.drop o) {}).chars = .ok p' := by
    rw [chars]
    apply @terminatorNested front back []
    · simp
    · rw [text]
      exact nested
    · rw [text]
      exact guarded
  rw [statementEnd, found]
  dsimp only
  omega

theorem charAt {i : Nat} (inside : i < r.code.text.length) :
    ∃ c, r.code.chars[i]? = some (r.code.rawOffset i, c) ∧ r.code.text[i]? = some c ∧
      r.line[r.code.rawOffset i]? = some c ∧ r.classes[r.code.rawOffset i]? = some .code := by
  rw [CodeLine.text, List.length_map] at inside
  obtain ⟨⟨o, c⟩, found⟩ : ∃ p, r.code.chars[i]? = some p := ⟨_, List.getElem?_eq_getElem inside⟩
  obtain ⟨here, live⟩ := codeMember.mp (List.mem_of_getElem? found)
  rw [rawOffsetAt found]
  exact ⟨c, found, by rw [CodeLine.text, List.getElem?_map, found]; rfl, here, live⟩

theorem neighbours {i j p : Nat} {a b : Char} (left : r.code.chars[i]? = some (p, a))
    (right : r.code.chars[j]? = some (p + 1, b)) : j = i + 1 := by
  have order : i < j := (offsetOrder left right).mpr (Nat.lt_succ_self p)
  by_contra other
  have inside : i + 1 < r.code.chars.length := by
    have := (List.getElem?_eq_some_iff.mp right).1
    omega
  obtain ⟨⟨q, d⟩, between⟩ : ∃ next, r.code.chars[i + 1]? = some next := ⟨_, List.getElem?_eq_getElem inside⟩
  have above := (offsetOrder left between).mp (Nat.lt_succ_self i)
  have below := (offsetOrder between right).mp (by omega)
  omega

theorem wordBefore {o : Nat} {x : Char} (outside : r.state.inString = false ∨ r.state.delimiter = none)
    (live : r.classes[o + 1]? = some .code) (here : r.line[o]? = some x) (word : isWord x = true) :
    r.classes[o]? = some .code := by
  obtain ⟨size, around⟩ := codeAround live
  obtain ⟨c, tail, behind, reached⟩ := codeReached around
  have inside := (List.getElem?_eq_some_iff.mp here).1
  have front : r.line.take (o + 1) = r.line.take o ++ [x] := takeHere here
  have short : (r.line.take o).length = o := by simp; omega
  rw [front, afterAppend, List.head?_cons, Option.some_or] at reached
  change ((r.state.mode.after (some x) (r.line.take o)).step x (some c)).2 = .code at reached
  have tame : (r.state.mode.after (some x) (r.line.take o)).Tame (some x) :=
    Mode.Tame.after (outsideTame outside _)
  have class' : r.classes[o]? = some ((r.state.mode.after (some x) (r.line.take o)).step x (some c)).1 := by
    have whole := r.classesRead
    rw [← List.take_append_drop (o + 1) r.line, front, behind, List.append_assoc, classesAppend] at whole
    rw [whole, List.getElem?_append_right (by rw [classesLength, short]), classesLength, short, Nat.sub_self]
    rfl
  rw [class']
  by_contra other
  have closes := tame.closes reached (fun same => other (by rw [same]))
  simp [word] at closes

theorem wordBehind {o : Nat} {x : Char} (live : r.classes[o]? = some .code) (here : r.line[o + 1]? = some x)
    (word : isWord x = true) : r.classes[o + 1]? = some .code := by
  have behind := classesBehind live
  obtain ⟨inside, isHere⟩ := List.getElem?_eq_some_iff.mp here
  have split : r.line.drop o = r.line[o] :: x :: r.line.drop (o + 2) := by
    rw [← isHere, List.getElem_cons_drop, List.getElem_cons_drop]
  have first := congrArg List.head? behind
  rw [List.head?_drop, live, split] at first
  have second := congrArg (fun l => l[1]?) behind
  simp only [List.getElem?_drop] at second
  rw [second, split]
  simp only [Mode.classes, List.head?_cons, Option.some_or, Option.some.injEq] at first
  simp only [Mode.classes, List.head?_cons, Option.some_or, (codeStepIff _ _).mp first.symm,
    List.getElem?_cons_succ, List.getElem?_cons_zero, codeStepWord word]

end

def Unbroken (code : CodeLine) (index length : Nat) : Prop :=
  ∀ i < length, code.rawOffset ((index + i : Nat) : Int) = code.rawOffset index + i

instance (code : CodeLine) (index length : Nat) : Decidable (Unbroken code index length) :=
  inferInstanceAs (Decidable (∀ i < length, _ = _))

def BehindTag (code : CodeLine) (index : Nat) : Prop :=
  ((code.text.take index).drop (index - 5)).map Char.toLower = "<?php".toList ∧
    code.rawOffset index = code.rawOffset ((index - 1 : Nat) : Int) + 1

instance (code : CodeLine) (index : Nat) : Decidable (BehindTag code index) :=
  inferInstanceAs (Decidable (_ ∧ _))

section
variable {r : Row}

theorem shownAt {i : Nat} {front rest : List Char} (starts : r.code.text.drop i = front ++ rest)
    (unbroken : Unbroken r.code i front.length) :
    r.line.drop (r.code.rawOffset i) = front ++ r.line.drop (r.code.rawOffset i + front.length) := by
  have size := congrArg List.length starts
  rw [List.length_drop, List.length_append] at size
  apply List.ext_getElem?
  intro k
  rw [List.getElem?_drop]
  by_cases short : k < front.length
  · obtain ⟨c, _, text, here, _⟩ := @charAt r (i + k) (by omega)
    rw [unbroken k short] at here
    rw [here, List.getElem?_append_left short, ← text, ← List.getElem?_drop, starts,
      List.getElem?_append_left short]
  · rw [List.getElem?_append_right (by omega), List.getElem?_drop]
    congr 1
    omega

theorem behindShown {i : Nat} {front rest : List Char} (starts : r.code.text.drop i = front ++ rest)
    (visible : front ≠ []) (unbroken : Unbroken r.code i front.length) (ends : startsInWord rest = false) :
    startsInWord (r.line.drop (r.code.rawOffset i + front.length)) = false := by
  have size := congrArg List.length starts
  rw [List.length_drop, List.length_append] at size
  obtain ⟨n, count⟩ : ∃ n, front.length = n + 1 := Nat.exists_eq_succ_of_ne_zero (by simpa using visible)
  obtain ⟨c, last, _, _, live⟩ := @charAt r (i + n) (by omega)
  rw [unbroken n (by omega)] at last live
  cases behind : r.line.drop (r.code.rawOffset i + front.length) with
  | nil => rfl
  | cons x tail =>
    have here : r.line[r.code.rawOffset i + n + 1]? = some x := by
      rw [Nat.add_assoc, ← count, ← List.head?_drop, behind, List.head?_cons]
    by_contra word
    have word : isWord x = true := by simpa [startsInWord] using word
    obtain ⟨j, next⟩ := List.mem_iff_getElem?.mp (codeMember.mpr ⟨here, wordBehind live here word⟩)
    obtain rfl := neighbours last next
    have text : r.code.text[i + n + 1]? = some x := by
      rw [CodeLine.text, List.getElem?_map]
      exact congrArg (Option.map Prod.snd) next
    rw [Nat.add_assoc, ← count, ← List.getElem?_drop, starts, List.getElem?_append_right (Nat.le_refl _),
      Nat.sub_self] at text
    cases rest with
    | nil => simp at text
    | cons d rest =>
      obtain rfl : d = x := by simpa using text
      simp [startsInWord, word] at ends

theorem beforeShown {g : Segment} (outside : r.state.inString = false ∨ r.state.delimiter = none)
    (member : g ∈ segments r.code.text) (inside : g.leading ≤ g.stop) (free : ¬ BehindTag r.code g.leading) :
    (r.line.take (r.code.rawOffset g.leading)).getLast?.any isWord = false := by
  have lies := segmentsLie _ g member
  obtain ⟨c, first, _, _, live⟩ := @charAt r g.leading (Nat.lt_of_le_of_lt inside lies.inside)
  rw [← Bool.not_eq_true, Option.any_eq_true]
  rintro ⟨x, last, word⟩
  obtain ⟨p, place⟩ : ∃ p, r.code.rawOffset g.leading = p + 1 := by
    refine Nat.exists_eq_succ_of_ne_zero fun zero => ?_
    simp [zero] at last
  rw [place] at first live last
  have here : r.line[p]? = some x := by
    have short := (List.getElem?_eq_some_iff.mp (codeMember.mp (List.mem_of_getElem? first)).1).1
    rw [List.getLast?_take, if_neg (Nat.succ_ne_zero p), Nat.add_sub_cancel,
      List.getElem?_eq_getElem (by omega)] at last
    rw [List.getElem?_eq_getElem (by omega)]
    exact last
  obtain ⟨j, before⟩ : ∃ j, r.code.chars[j]? = some (p, x) :=
    List.mem_iff_getElem?.mp (codeMember.mpr ⟨here, wordBefore outside live here word⟩)
  have next := neighbours before first
  have text : r.code.text[j]? = some x := by
    rw [CodeLine.text, List.getElem?_map]
    exact congrArg (Option.map Prod.snd) before
  by_cases edge : g.start ≤ j
  · have blank := blankBefore lies edge (by omega) text
    simp [blankNoWord blank] at word
  · have start : g.start = g.leading := by
      have : g.start ≤ g.leading := Nat.le_add_right _ _
      omega
    have front : r.code.text.take g.leading = r.code.text.take j ++ [x] := by
      rw [next, List.take_add_one, text, Option.toList_some]
    have known := segmentEdge member
    rw [start, front, List.reverse_append, List.reverse_singleton, List.singleton_append] at known
    obtain ⟨tag, more, split, spelled⟩ := known.word word
    refine free ⟨?_, ?_⟩
    · have parts := congrArg List.reverse split
      rw [List.reverse_cons, List.reverse_reverse, List.reverse_append, List.reverse_reverse, ← front] at parts
      have five : tag.length = 5 := by simpa using congrArg List.length spelled
      have size := congrArg List.length parts
      rw [List.length_take, List.length_append, five] at size
      have short := lies.inside
      rw [parts, List.drop_left' (by omega), spelled]
    · rw [place, next, Nat.add_sub_cancel, rawOffsetAt before]

theorem endsWithin {g : Segment} (member : g ∈ segments r.code.text) (nested : Nested g.text) :
    ∃ o c p, r.code.chars[g.leading]? = some (o, c) ∧ r.code.chars[g.stop]? = some (p, ';') ∧
      statementEnd r.line o = p + 1 := by
  obtain ⟨order, nested, guarded⟩ := segmentShown member nested
  have inside := (segmentsLie _ g member).inside
  obtain ⟨c, first, -⟩ := @charAt r g.leading (by omega)
  obtain ⟨d, last, text, -⟩ := @charAt r g.stop inside
  obtain rfl : d = ';' := Option.some.inj (text.symm.trans (segmentEnds member))
  exact ⟨_, c, _, first, last, endExact first last order nested guarded⟩

theorem tokenShown {g : Segment} {kind : Kind} (member : g ∈ segments r.code.text)
    (known : kindOf? g.text = some kind) (unbroken : Unbroken r.code g.leading kind.token.toList.length) :
    (dropToken? kind.token.toList (r.line.drop (r.code.rawOffset g.leading))).isSome := by
  obtain ⟨rest, dropped⟩ := kindLeads known
  obtain ⟨front, text, size, again⟩ := tokenPrefix dropped
  have starts := leadingText (segmentsLie _ g member)
  rw [text, List.append_assoc] at starts
  rw [shownAt starts (size ▸ unbroken), again]
  rfl

theorem haltLocated {g : Segment} (outside : r.state.inString = false ∨ r.state.delimiter = none)
    (member : g ∈ segments r.code.text) (inside : g.leading ≤ g.stop) (only : isHaltOnly g.text = true)
    (free : ¬ BehindTag r.code g.leading)
    (unbroken : ∀ token ∈ haltTokens, (dropToken? token (dropBlanks g.text)).isSome →
      Unbroken r.code g.leading token.length) :
    findHaltFrom? r.line (r.code.rawOffset g.leading) = some (r.code.rawOffset g.leading) := by
  obtain ⟨token, listed, c, rest, dropped, ends⟩ := haltOnlyStarts only
  have solid := unbroken token listed (by rw [dropped]; rfl)
  obtain ⟨front, text, size, again⟩ := tokenPrefix dropped
  have starts := leadingText (segmentsLie _ g member)
  rw [text, List.append_assoc] at starts
  rw [← size] at solid
  have visible : front ≠ [] := by
    rintro rfl
    have long : ∀ token ∈ haltTokens, token.length ≠ 0 := by decide
    exact long token listed size.symm
  have here : haltHere (r.line.drop (r.code.rawOffset g.leading)) = true := by
    refine List.any_eq_true.mpr ⟨token, listed, ?_⟩
    rw [shownAt starts solid, again, Option.any_some, behindShown starts visible solid ends]
    rfl
  have before := beforeShown outside member inside free
  unfold findHaltFrom?
  cases behind : r.line.drop (r.code.rawOffset g.leading) with
  | nil => simp [behind, haltHere, haltTokens, dropToken?] at here
  | cons c tail =>
    rw [behind] at here
    rw [findHalt?, before, here]
    rfl

end

end DebugSweep.Scan.Row

namespace DebugSweep.Scan
open Lexis Text Row

theorem locatedExactly {line : List Char} {state : LineState} {m : Merged}
    (outside : state.inString = false ∨ state.delimiter = none)
    (member : m ∈ merge (segments (codeOf line state).text)) (nested : Nested m.segment.text)
    (unbroken : Unbroken (codeOf line state) m.segment.leading m.kind.token.toList.length)
    (halts : ∀ halt ∈ m.halt, Nested halt.text ∧ ¬ BehindTag (codeOf line state) halt.leading ∧
      ∀ token ∈ haltTokens, (dropToken? token (dropBlanks halt.text)).isSome →
        Unbroken (codeOf line state) halt.leading token.length) :
    ∃ start c stop, (codeOf line state).chars[m.segment.leading]? = some (start, c) ∧ isBlank c = false ∧
      (codeOf line state).chars[(m.halt.getD m.segment).stop]? = some (stop, ';') ∧
      locate? line (codeOf line state) m = some (start, stop + 1) := by
  let r : Row := ⟨0, line, state⟩
  have inside : m.segment ∈ segments r.code.text := mergeMember member
  obtain ⟨start, c, stop, first, last, ends⟩ := endsWithin inside nested
  have place : r.anchor m = start := rawOffsetAt first
  have spelled : r.Spells m := tokenShown inside (mergeKind _ m member) unbroken
  have visible : isBlank c = false := by
    obtain ⟨d, rest, behind, shown⟩ := tokenVisible spelled
    have here : r.line[start]? = some c := (codeMember.mp (List.mem_of_getElem? first)).1
    rw [place] at behind
    rw [← List.head?_drop, behind, List.head?_cons] at here
    exact Option.some.inj here ▸ shown
  have located : locate? line (codeOf line state) m = some (start, r.stop m) := place ▸ spelledLocated spelled
  cases halted : m.halt with
  | none =>
    have stops : r.stop m = stop + 1 := by
      rw [Row.stop, haltPlace?, halted]
      exact place ▸ ends
    exact ⟨start, c, stop, first, visible, last, stops ▸ located⟩
  | some halt =>
    obtain ⟨nestedHalt, free, solid⟩ := halts halt halted
    obtain ⟨early, late, parts⟩ := mergeInside member
    rw [halted] at parts
    have follows : m.segment.stop < halt.start := by
      have pairs := segmentsFollow r.code.text
      rw [show segments r.code.text = _ from parts] at pairs
      exact (List.pairwise_cons.mp (List.pairwise_append.mp pairs).2.1).1 halt (by simp)
    have haltInside : halt ∈ segments r.code.text := by
      rw [show segments r.code.text = _ from parts]
      simp
    obtain ⟨start', c', stop', first', last', ends'⟩ := endsWithin haltInside nestedHalt
    have order : halt.leading ≤ halt.stop := (segmentShown haltInside nestedHalt).1
    have found := haltLocated outside haltInside order (mergeHalts member halted) free solid
    have later : stop < start' := (offsetOrder last first').mp (Nat.lt_of_lt_of_le follows (Nat.le_add_right _ _))
    rw [rawOffsetAt first'] at found
    have stops : r.stop m = stop' + 1 := by
      have halts : r.haltPlace? m = some start' := by
        rw [haltPlace?, halted, Option.bind_some, place, ends, rawOffsetAt first', Nat.max_eq_right later, found,
          Option.some_or]
      rw [Row.stop, halts]
      exact ends'
    exact ⟨start, c, stop', first, visible, last', stops ▸ located⟩

def nestedDump : Merged :=
  { segment := ⟨" var_dump(f(function () \x7b return ; \x7d, [1]));".toList, 2, 45⟩, kind := .varDump
    halt := some ⟨" EXIT(1);".toList, 46, 54⟩ }

theorem nestedDumpLocated :
    let row := "; */ \x7b var_dump(f(function () \x7b return ';'; \x7d, [1])); /* ; */EXIT(1); \x7d".toList
    let code := codeOf row { inBlockComment := true }
    nestedDump ∈ merge (segments code.text) ∧ row[7]? = some 'v' ∧ row[68]? = some ';' ∧
      locate? row code nestedDump = some (7, 69) := by
  intro row code
  have member : nestedDump ∈ merge (segments code.text) := by decide +kernel
  have halts : ∀ halt ∈ nestedDump.halt, Nested halt.text ∧ ¬ BehindTag code halt.leading ∧
      ∀ token ∈ haltTokens, (dropToken? token (dropBlanks halt.text)).isSome →
        Unbroken code halt.leading token.length := by decide +kernel
  obtain ⟨start, c, stop, first, _, last, located⟩ :=
    locatedExactly (.inl rfl) member (by decide +kernel) (by decide +kernel) halts
  have starts : code.chars[nestedDump.segment.leading]? = some (7, 'v') := by decide +kernel
  have stops : code.chars[(nestedDump.halt.getD nestedDump.segment).stop]? = some (68, ';') := by decide +kernel
  obtain ⟨rfl, -⟩ := Prod.mk.inj (Option.some.inj (starts.symm.trans first))
  obtain ⟨rfl, -⟩ := Prod.mk.inj (Option.some.inj (stops.symm.trans last))
  exact ⟨member, by decide +kernel, by decide +kernel, located⟩

end DebugSweep.Scan
