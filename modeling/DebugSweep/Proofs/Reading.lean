import DebugSweep.Lexis.Code
import DebugSweep.Proofs.Pieces
import DebugSweep.Text.Blank
import Mathlib.Data.List.Basic
import Mathlib.Data.List.TakeWhile

/-! How the classifying machine goes through a line that more text may follow. A part of a line is
read with the character behind it in view, so that the readings of two parts make up the reading of
the whole. Main statements: the code of a line is exactly its characters of class code, in order of
their offsets, and what stands before a place in code is read alike whatever follows there. -/
namespace DebugSweep.Lexis
open Text

def Mode.after (mode : Mode) (next : Option Char) : List Char → Mode
  | [] => mode
  | c :: tail => (mode.step c (tail.head?.or next)).2.after next tail

def Mode.classes (mode : Mode) (next : Option Char) : List Char → List CharClass
  | [] => []
  | c :: tail =>
      (mode.step c (tail.head?.or next)).1 :: (mode.step c (tail.head?.or next)).2.classes next tail

def kept (offset : Nat) : List Char → List CharClass → List (Nat × Char)
  | c :: line, cls :: classes =>
      if cls = .code then (offset, c) :: kept (offset + 1) line classes
      else kept (offset + 1) line classes
  | _, _ => []

theorem runReads (mode : Mode) (done : List CharClass) (line : List Char) :
    run mode done line = (done.reverse ++ mode.classes none line, mode.after none line) := by
  induction line generalizing mode done with
  | nil => simp [run, Mode.classes, Mode.after]
  | cons c rest ih => simp [run, Mode.classes, Mode.after, ih]

theorem keepCodeKept (offset : Nat) (done : List (Nat × Char)) (line : List Char)
    (classes : List CharClass) :
    keepCode offset done line classes = done.reverse ++ kept offset line classes := by
  induction line generalizing offset done classes with
  | nil => simp [keepCode, kept]
  | cons c line ih =>
    cases classes with
    | nil => simp [keepCode, kept]
    | cons cls classes =>
      simp only [keepCode, kept, ih]
      split <;> simp

theorem classifyReads (line : List Char) (state : LineState) :
    classify line state = ⟨state.mode.classes none line, (state.mode.after none line).exit⟩ := by
  simp [classify, runReads]

theorem codeChars (line : List Char) (state : LineState) :
    (codeOf line state).chars = kept 0 line (classify line state).classes := by
  simp [codeOf, keepCodeKept]

theorem classesLength (mode : Mode) (next : Option Char) (line : List Char) :
    (mode.classes next line).length = line.length := by
  induction line generalizing mode with
  | nil => rfl
  | cons c rest ih => simp [Mode.classes, ih]

theorem keptMember {offset : Nat} {text : List Char} {classes : List CharClass} {o : Nat} {c : Char} :
    (o, c) ∈ kept offset text classes ↔
      ∃ i, o = offset + i ∧ text[i]? = some c ∧ classes[i]? = some .code := by
  induction text generalizing offset classes with
  | nil => simp [kept]
  | cons d text ih =>
    cases classes with
    | nil => simp [kept]
    | cons cls classes =>
      constructor
      · intro member
        simp only [kept] at member
        split at member
        · rename_i code
          rcases List.mem_cons.mp member with same | later
          · cases same
            exact ⟨0, by simp, by simp, by simp [code]⟩
          · obtain ⟨i, rfl, hc, hk⟩ := ih.mp later
            exact ⟨i + 1, by omega, by simpa using hc, by simpa using hk⟩
        · obtain ⟨i, rfl, hc, hk⟩ := ih.mp member
          exact ⟨i + 1, by omega, by simpa using hc, by simpa using hk⟩
      · rintro ⟨i, rfl, hc, hk⟩
        simp only [kept]
        cases i with
        | zero =>
          simp only [List.getElem?_cons_zero, Option.some.injEq] at hc hk
          subst hc hk
          simp
        | succ i =>
          simp only [List.getElem?_cons_succ] at hc hk
          have later : (offset + (i + 1), c) ∈ kept (offset + 1) text classes :=
            ih.mpr ⟨i, by omega, hc, hk⟩
          split
          · exact List.mem_cons_of_mem _ later
          · exact later

theorem keptRising (offset : Nat) (line : List Char) (classes : List CharClass) :
    ((kept offset line classes).map Prod.fst).Pairwise (· < ·) := by
  induction line generalizing offset classes with
  | nil => simp [kept]
  | cons c line ih =>
    cases classes with
    | nil => simp [kept]
    | cons cls classes =>
      simp only [kept]
      split
      · simp only [List.map_cons, List.pairwise_cons]
        refine ⟨?_, ih _ _⟩
        intro o member
        obtain ⟨⟨o', d⟩, inside, rfl⟩ := List.mem_map.mp member
        obtain ⟨i, rfl, _, _⟩ := keptMember.mp inside
        show offset < offset + 1 + i
        omega
      · exact ih _ _

theorem codeMember {text : List Char} {state : LineState} {o : Nat} {c : Char} :
    (o, c) ∈ (codeOf text state).chars ↔
      text[o]? = some c ∧ (classify text state).classes[o]? = some .code := by
  rw [codeChars, keptMember]
  constructor
  · rintro ⟨i, rfl, hc, hk⟩
    simpa using ⟨hc, hk⟩
  · rintro ⟨hc, hk⟩
    exact ⟨o, by simp, hc, hk⟩

theorem codeOffsetsRising (line : List Char) (state : LineState) :
    (codeOf line state).offsets.Pairwise (· < ·) := by
  rw [CodeLine.offsets, codeChars]
  exact keptRising _ _ _

theorem rawOffsetAt {code : CodeLine} {index : Nat} {o : Nat} {c : Char}
    (found : code.chars[index]? = some (o, c)) : code.rawOffset index = o := by
  have inside : code.offsets[index]? = some o := by simp [CodeLine.offsets, found]
  cases last : code.offsets.getLast? with
  | none => simp [List.getLast?_eq_none_iff.mp last] at inside
  | some l => simp [CodeLine.rawOffset, last, inside]

def Mode.live (mode : Mode) (next : Option Char) : List Char → List Char
  | [] => []
  | c :: tail =>
      if (mode.step c (tail.head?.or next)).1 = .code then
        c :: (mode.step c (tail.head?.or next)).2.live next tail
      else (mode.step c (tail.head?.or next)).2.live next tail

theorem liveOne (mode : Mode) (next : Option Char) (c : Char) :
    mode.live next [c] = if (mode.step c next).1 = .code then [c] else [] := rfl

theorem keptLive (mode : Mode) (next : Option Char) (offset : Nat) (line : List Char) :
    (kept offset line (mode.classes next line)).map Prod.snd = mode.live next line := by
  induction line generalizing mode offset with
  | nil => rfl
  | cons c tail ih =>
    simp only [Mode.classes, Mode.live, kept]
    split
    · simp [ih]
    · exact ih _ _

theorem codeText (line : List Char) (state : LineState) :
    (codeOf line state).text = state.mode.live none line := by
  rw [CodeLine.text, codeChars, classifyReads, keptLive]

theorem codeExit (line : List Char) (state : LineState) :
    (codeOf line state).exit = (state.mode.after none line).exit := by
  simp [codeOf, classifyReads]

theorem afterAppend (mode : Mode) (next : Option Char) (left right : List Char) :
    mode.after next (left ++ right) = (mode.after (right.head?.or next) left).after next right := by
  induction left generalizing mode with
  | nil => rfl
  | cons c tail ih => simp [Mode.after, ih, List.head?_append, Option.or_assoc]

theorem classesAppend (mode : Mode) (next : Option Char) (left right : List Char) :
    mode.classes next (left ++ right) =
      mode.classes (right.head?.or next) left ++
        (mode.after (right.head?.or next) left).classes next right := by
  induction left generalizing mode with
  | nil => rfl
  | cons c tail ih => simp [Mode.classes, Mode.after, ih, List.head?_append, Option.or_assoc]

theorem liveAppend (mode : Mode) (next : Option Char) (left right : List Char) :
    mode.live next (left ++ right) =
      mode.live (right.head?.or next) left ++
        (mode.after (right.head?.or next) left).live next right := by
  induction left generalizing mode with
  | nil => rfl
  | cons c tail ih =>
    simp only [List.cons_append, Mode.live, Mode.after, List.head?_append, Option.or_assoc, ih]
    split <;> rfl

theorem codeStepIff (c : Char) (next : Option Char) :
    (Mode.step .code c next).1 = .code ↔ (Mode.step .code c next).2 = .code := by
  simp only [Mode.step]
  split
  · simp
  · split
    · simp
    · split <;> simp

theorem stepCode {mode : Mode} {c : Char} {next : Option Char}
    (code : (mode.step c next).1 = .code) : mode = .code := by
  cases mode with
  | code => rfl
  | literal closer escaped =>
    simp only [Mode.step] at code
    repeat' split at code
    all_goals contradiction
  | comment inner =>
    simp only [Mode.step] at code
    split at code <;> contradiction
  | opening => contradiction
  | closing inner => contradiction
  | rest => contradiction

theorem stepToCode {mode : Mode} {c : Char} {next : Option Char}
    (code : (mode.step c next).2 = .code) (slash : ¬ (mode = .code ∧ c = '/')) (other : Option Char) :
    mode.step c other = mode.step c next := by
  cases mode with
  | code =>
    have plain : c ≠ '/' := fun same => slash ⟨rfl, same⟩
    simp [Mode.step, plain]
  | literal closer escaped => rfl
  | comment inner =>
    simp only [Mode.step] at code
    split at code <;> simp at code
  | opening => rfl
  | closing inner => rfl
  | rest => rfl

/-- The text is read to its end and leaves the reader in code, whatever follows it. -/
def Mode.LeadsToCode (mode : Mode) (text : List Char) : Prop := ∀ next, mode.after next text = .code

theorem leadsToCodeLive {mode : Mode} {text : List Char} (leads : mode.LeadsToCode text)
    (next other : Option Char) : mode.live next text = mode.live other text := by
  rcases List.eq_nil_or_concat' text with rfl | ⟨front, c, rfl⟩
  · rfl
  · have last : ∀ n, mode.live n (front ++ [c]) = mode.live (some c) front ++
        (mode.after (some c) front).live n [c] := fun n => by simp [liveAppend]
    have ends : ∀ n, ((mode.after (some c) front).step c n).2 = .code := fun n => by
      simpa [afterAppend, Mode.after] using leads n
    -- With a slash behind it, code's own slash would open a comment.
    have slash : ¬ (mode.after (some c) front = .code ∧ c = '/') := by
      rintro ⟨before, rfl⟩
      have := ends (some '/')
      simp [before, Mode.step, isQuote] at this
    rw [last, last, liveOne, liveOne, stepToCode (ends next) slash other]

theorem leadsToCodeAppend {mode : Mode} {left : List Char} (leads : mode.LeadsToCode left)
    (next : Option Char) (right : List Char) :
    mode.live next (left ++ right) = mode.live none left ++ Mode.code.live next right ∧
      mode.after next (left ++ right) = Mode.code.after next right := by
  rw [liveAppend, afterAppend, leads, leadsToCodeLive leads _ none]
  exact ⟨rfl, rfl⟩

theorem codeReached {mode : Mode} {next : Option Char} {left right : List Char}
    (code : (mode.classes next (left ++ right))[left.length]? = some .code) :
    ∃ c tail, right = c :: tail ∧ mode.after (some c) left = .code := by
  cases right with
  | nil =>
    rw [List.append_nil, ← classesLength mode next left] at code
    simp at code
  | cons c tail =>
    have size : (mode.classes (some c) left).length = left.length := classesLength _ _ _
    simp only [classesAppend, List.head?_cons, Option.some_or] at code
    rw [List.getElem?_append_right (by omega), size, Nat.sub_self] at code
    simp only [Mode.classes, List.getElem?_cons_zero, Option.some.injEq] at code
    exact ⟨c, tail, rfl, stepCode code⟩

theorem classesFromCode {mode : Mode} {next : Option Char} {left right : List Char}
    (code : (mode.classes next (left ++ right))[left.length]? = some .code) :
    (mode.classes next (left ++ right)).drop left.length = Mode.code.classes next right := by
  obtain ⟨c, tail, rfl, reached⟩ := codeReached code
  rw [classesAppend, List.head?_cons, Option.some_or, reached]
  exact List.drop_left' (classesLength _ _ _)

theorem leadsToCodeEnd {mode : Mode} {next : Option Char} {left right : List Char}
    (code : (mode.classes next (left ++ ';' :: right))[left.length]? = some .code) :
    mode.LeadsToCode (left ++ [';']) := by
  obtain ⟨c, tail, same, reached⟩ := codeReached code
  cases same
  intro other
  rw [afterAppend, List.head?_cons, Option.some_or, reached]
  rfl

theorem leadsToCodeBefore {mode : Mode} {next : Option Char} {left right : List Char}
    (code : (mode.classes next (left ++ right))[left.length]? = some .code)
    (slash : left = [] ∨ left.getLast? ≠ some '/' ∨
      (mode.classes next (left ++ right))[left.length - 1]? ≠ some .code) :
    mode.LeadsToCode left := by
  obtain ⟨c, tail, rfl, reached⟩ := codeReached code
  simp only [classesAppend, List.head?_cons, Option.some_or] at slash
  rcases List.eq_nil_or_concat' left with rfl | ⟨front, d, rfl⟩
  · exact fun _ => reached
  · have size : (mode.classes (some c) (front ++ [d])).length = (front ++ [d]).length :=
      classesLength _ _ _
    have ends : ((mode.after (some d) front).step d (some c)).2 = .code := by
      simpa [afterAppend, Mode.after] using reached
    have plain : ¬ (mode.after (some d) front = .code ∧ d = '/') := by
      rintro ⟨before, rfl⟩
      have last : (mode.classes (some c) (front ++ ['/']))[front.length]? = some .code := by
        rw [before] at ends
        have live := (codeStepIff '/' (some c)).mpr ends
        simp [classesAppend, classesLength, before, Mode.classes, live]
      rcases slash with empty | other | other
      · simp at empty
      · simp at other
      · rw [List.getElem?_append_left (by simp [size])] at other
        simp only [List.length_append, List.length_singleton, Nat.add_sub_cancel] at other
        exact other last
    intro next
    simp only [afterAppend, List.head?_cons, Option.some_or, Mode.after, List.head?_nil,
      Option.none_or]
    rw [stepToCode ends plain next, ends]

theorem stepPlain (mode : Mode) (c : Char) {next : Option Char} (slash : next ≠ some '/')
    (star : next ≠ some '*') : mode.step c next = mode.step c none := by
  cases mode <;> simp [Mode.step, slash, star]

theorem afterPlain (mode : Mode) (text : List Char) {next : Option Char} (slash : next ≠ some '/')
    (star : next ≠ some '*') : mode.after next text = mode.after none text := by
  rcases List.eq_nil_or_concat' text with rfl | ⟨front, c, rfl⟩
  · rfl
  · simp [afterAppend, Mode.after, stepPlain _ _ slash star]

theorem livePlain (mode : Mode) (text : List Char) {next : Option Char} (slash : next ≠ some '/')
    (star : next ≠ some '*') : mode.live next text = mode.live none text := by
  rcases List.eq_nil_or_concat' text with rfl | ⟨front, c, rfl⟩
  · rfl
  · simp only [liveAppend, List.head?_cons, Option.some_or, liveOne, stepPlain _ _ slash star]

theorem classesPlain (mode : Mode) (text : List Char) {next : Option Char} (slash : next ≠ some '/')
    (star : next ≠ some '*') : mode.classes next text = mode.classes none text := by
  rcases List.eq_nil_or_concat' text with rfl | ⟨front, c, rfl⟩
  · rfl
  · simp only [classesAppend, List.head?_cons, Option.some_or, Mode.classes, List.head?_nil,
      Option.none_or, stepPlain _ _ slash star]

-- Only what can complete a comment's opening or closing makes a difference behind a text.
theorem leadsToCodeIff (mode : Mode) (text : List Char) : mode.LeadsToCode text ↔
    ∀ next ∈ [none, some '/', some '*'], mode.after next text = .code := by
  constructor
  · intro leads next _
    exact leads next
  · intro few next
    by_cases special : next = some '/' ∨ next = some '*'
    · exact few next (by rcases special with rfl | rfl <;> simp)
    · rw [afterPlain _ _ (fun slash => special (Or.inl slash)) (fun star => special (Or.inr star))]
      exact few none (by simp)

instance (mode : Mode) (text : List Char) : Decidable (mode.LeadsToCode text) :=
  decidable_of_iff _ (leadsToCodeIff mode text).symm

theorem liveSublist (mode : Mode) (next : Option Char) (text : List Char) :
    (mode.live next text).Sublist text := by
  induction text generalizing mode with
  | nil => exact List.Sublist.refl _
  | cons c tail ih =>
    simp only [Mode.live]
    split
    · exact (ih _).cons_cons _
    · exact (ih _).cons _

def Mode.Outer (mode : Mode) : Prop := mode = .code ∨ ∃ closer escaped, mode = .literal closer escaped

def Mode.Fits : Mode → Option Char → Prop
  | .opening, next => next = some '*'
  | .closing inner, next => next = some '/' ∧ inner.Outer
  | .comment inner, _ => inner.Outer
  | _, _ => True

theorem outerFits {mode : Mode} (outer : mode.Outer) (next : Option Char) : mode.Fits next := by
  rcases outer with rfl | ⟨_, _, rfl⟩ <;> trivial

theorem stateFits (state : LineState) (next : Option Char) : state.mode.Fits next := by
  unfold LineState.mode
  dsimp only
  split
  · change Mode.Outer _
    split
    · exact Or.inr ⟨_, _, rfl⟩
    · exact Or.inl rfl
  · apply outerFits
    split
    · exact Or.inr ⟨_, _, rfl⟩
    · exact Or.inl rfl

theorem stepFits {mode : Mode} {c : Char} (fits : mode.Fits (some c)) (next : Option Char) :
    (mode.step c next).2.Fits next := by
  cases mode with
  | code =>
    simp only [Mode.step]
    split
    · trivial
    · split
      · trivial
      · split
        · rename_i mark
          simp only [Bool.and_eq_true, beq_iff_eq] at mark
          exact mark.2
        · trivial
  | literal closer escaped =>
    simp only [Mode.step]
    repeat' split
    all_goals trivial
  | comment inner =>
    simp only [Mode.step]
    split
    · rename_i mark
      simp only [Bool.and_eq_true, beq_iff_eq] at mark
      exact ⟨mark.2, fits⟩
    · exact fits
  | opening => exact Or.inl rfl
  | closing inner => exact outerFits fits.2 next
  | rest => trivial

theorem afterFits {mode : Mode} {next : Option Char} {text : List Char}
    (fits : mode.Fits (text.head?.or next)) : (mode.after next text).Fits next := by
  induction text generalizing mode with
  | nil => exact fits
  | cons c tail ih => exact ih (stepFits fits _)

theorem dropEndSplit (c : Char) (text : List Char) :
    ∃ tail, text = dropEnd c text ++ tail ∧ ∀ d ∈ tail, d = c := by
  refine ⟨(text.reverse.takeWhile (· == c)).reverse, ?_, ?_⟩
  · rw [dropEnd, ← List.reverse_append, List.takeWhile_append_dropWhile, List.reverse_reverse]
  · intro d member
    simpa using List.mem_takeWhile_imp (List.mem_reverse.mp member)

theorem blankOther {c d : Char} (blank : isBlank c = true) (visible : isBlank d = false) : c ≠ d := by
  rintro rfl
  rw [blank] at visible
  contradiction

theorem blankStep {c : Char} (blank : isBlank c = true) (next : Option Char) :
    Mode.step .code c next = (.code, .code) := by
  have single : c ≠ '\'' := blankOther blank rfl
  have double : c ≠ '"' := blankOther blank rfl
  have hash : c ≠ '#' := blankOther blank rfl
  have slash : c ≠ '/' := blankOther blank rfl
  simp [Mode.step, isQuote, single, double, hash, slash]

theorem blankExit {mode : Mode} {c : Char} (blank : isBlank c = true) (fits : mode.Fits (some c))
    (next : Option Char) : (mode.step c next).2.exit = mode.exit := by
  have star : c ≠ '*' := blankOther blank rfl
  have slash : c ≠ '/' := blankOther blank rfl
  cases mode with
  | code => rw [blankStep blank]
  | literal closer escaped =>
    simp only [Mode.step]
    repeat' split
    all_goals rfl
  | comment inner => simp [Mode.step, star, Mode.exit]
  | opening => exact absurd (Option.some.inj fits) star
  | closing inner => exact absurd (Option.some.inj fits.1) slash
  | rest => rfl

theorem blanksExit {mode : Mode} {text : List Char} (blank : allBlank text = true)
    (fits : mode.Fits text.head?) : (mode.after none text).exit = mode.exit := by
  induction text generalizing mode with
  | nil => rfl
  | cons c tail ih =>
    simp only [allBlank, List.all_cons, Bool.and_eq_true] at blank
    have next := stepFits fits tail.head?
    rw [Mode.after, Option.or_none, ih blank.2 next, blankExit blank.1 fits]

theorem blankHead {tail : List Char} (blank : allBlank tail = true) :
    tail.head?.or none ≠ some '/' ∧ tail.head?.or none ≠ some '*' := by
  cases tail with
  | nil => simp
  | cons c tail =>
    simp only [allBlank, List.all_cons, Bool.and_eq_true] at blank
    have slash : c ≠ '/' := blankOther blank.1 rfl
    have star : c ≠ '*' := blankOther blank.1 rfl
    simp [slash, star]

theorem blanksBehind (mode : Mode) (text : List Char) {tail : List Char}
    (blank : allBlank tail = true) :
    mode.after (tail.head?.or none) text = mode.after none text ∧
      mode.live (tail.head?.or none) text = mode.live none text := by
  obtain ⟨slash, star⟩ := blankHead blank
  exact ⟨afterPlain _ _ slash star, livePlain _ _ slash star⟩

theorem blanksRead {mode : Mode} {text tail : List Char} (blank : allBlank tail = true)
    (fits : mode.Fits (text ++ tail).head?) :
    (mode.after none (text ++ tail)).exit = (mode.after none text).exit ∧
      mode.live none (text ++ tail) =
        mode.live none text ++ (mode.after none text).live none tail := by
  obtain ⟨after, live⟩ := blanksBehind mode text blank
  have inner : (mode.after none text).Fits tail.head? := by
    rw [← after, Option.or_none]
    exact afterFits (by rwa [← List.head?_append])
  refine ⟨?_, ?_⟩
  · rw [afterAppend, after, blanksExit blank inner]
  · rw [liveAppend, after, live]

theorem returnsRead (state : LineState) (line : List Char) :
    (state.mode.after none (dropEnd '\r' line)).exit = (state.mode.after none line).exit ∧
      ∃ tail, (∀ c ∈ tail, c = '\r') ∧
        state.mode.live none line = state.mode.live none (dropEnd '\r' line) ++ tail := by
  obtain ⟨tail, split, returns⟩ := dropEndSplit '\r' line
  have blank : allBlank tail = true := by
    apply List.all_eq_true.mpr
    intro c member
    rw [returns c member]
    rfl
  obtain ⟨exit, live⟩ := blanksRead blank (stateFits state (dropEnd '\r' line ++ tail).head?)
  rw [← split] at exit live
  refine ⟨exit.symm, _, ?_, live⟩
  intro c member
  exact returns c ((liveSublist _ _ _).subset member)

def stateBehind (state : LineState) : List (List Char) → LineState
  | [] => state
  | line :: rest => stateBehind (state.mode.after none line).exit rest

theorem exitCases (mode : Mode) : mode.exit = {} ∨ mode.exit = { inBlockComment := true } := by
  cases mode <;> simp [Mode.exit]

theorem stateBehindCases {state : LineState} (start : state = {} ∨ state = { inBlockComment := true })
    (lines : List (List Char)) :
    stateBehind state lines = {} ∨ stateBehind state lines = { inBlockComment := true } := by
  induction lines generalizing state with
  | nil => exact start
  | cons line rest ih => exact ih (exitCases _)

end DebugSweep.Lexis
