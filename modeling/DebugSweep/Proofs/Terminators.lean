import DebugSweep.Lexis.Terminator
import DebugSweep.Proofs.Matching
import DebugSweep.Proofs.Trimming

/-! Where a statement ends. Main statement: read from a character of code on, a line has the classes and the exit that
it has as a whole, so that a statement ends behind the first semicolon of the line's code that no bracket opened since
encloses, or with the line if there is none. -/
namespace DebugSweep.Lexis

def countOne (opener closer : Char) (count : Nat) (c : Char) : Nat :=
  if c = opener then count + 1 else if c = closer then count - 1 else count

/-- How many brackets of one kind a text leaves open. A closer that closes nothing does not count. -/
def openIn (opener closer : Char) (text : List Char) : Nat := text.foldl (countOne opener closer) 0

structure Level (text : List Char) : Prop where
  paren : openIn '(' ')' text = 0
  bracket : openIn '[' ']' text = 0
  brace : openIn '\x7b' '\x7d' text = 0

def codeIn (line : List Char) (classes : List CharClass) (first last : Nat) : List Char :=
  ((((line.zip classes).take last).drop first).filter (fun p => p.2 == .code)).map Prod.fst

structure Terminates (text : List Char) (classes : List CharClass) (first o : Nat) : Prop where
  behind : first ≤ o
  semicolon : text[o]? = some ';'
  live : classes[o]? = some .code
  level : Level (codeIn text classes first o)

def Brackets.behind (depth : Brackets) (text : List Char) : Brackets := text.foldl (Brackets.apply true) depth

theorem applyCounts (paren bracket brace : Nat) (c : Char) : Brackets.apply true ⟨paren, bracket, brace⟩ c =
    ⟨countOne '(' ')' paren c, countOne '[' ']' bracket c, countOne '\x7b' '\x7d' brace c⟩ := by
  have closes (count : Nat) : closeOne true count = (count - 1 : Nat) := by
    unfold closeOne
    split
    · rename_i none
      simp only [Bool.true_and, decide_eq_true_eq] at none
      omega
    · rename_i some
      simp only [Bool.true_and, decide_eq_true_eq] at some
      omega
  unfold Brackets.apply
  split <;> simp_all [countOne]

theorem behindCounts (text : List Char) : Brackets.behind {} text =
    ⟨openIn '(' ')' text, openIn '[' ']' text, openIn '\x7b' '\x7d' text⟩ := by
  induction text using List.reverseRecOn with
  | nil => rfl
  | append_singleton text c ih =>
    unfold Brackets.behind openIn at ih ⊢
    simp only [List.foldl_append, List.foldl_cons, List.foldl_nil, ih, applyCounts]

theorem levelIff {text : List Char} : (Brackets.behind {} text).isTopLevel = true ↔ Level text := by
  simp only [behindCounts, Brackets.isTopLevel, Bool.and_eq_true, decide_eq_true_eq]
  constructor
  · rintro ⟨⟨paren, bracket⟩, brace⟩
    exact ⟨by omega, by omega, by omega⟩
  · rintro ⟨paren, bracket, brace⟩
    omega

def Unended (depth : Brackets) (chars : List (Nat × Char)) : Prop :=
  ∀ front o back, chars = front ++ (o, ';') :: back → (depth.behind (front.map Prod.snd)).isTopLevel = false

theorem unendedCons {depth : Brackets} {o : Nat} {c : Char} {chars : List (Nat × Char)}
    (here : c = ';' → depth.isTopLevel = false) (later : Unended (depth.apply true c) chars) :
    Unended depth ((o, c) :: chars) := by
  intro front p back split
  cases front with
  | nil =>
    cases split
    exact here rfl
  | cons first front =>
    obtain ⟨rfl, behind⟩ := List.cons.inj split
    exact later front p back behind

-- The induction is on the characters; the counts are those behind what was passed over.
theorem terminatorSplit (depth : Brackets) (chars : List (Nat × Char)) :
    (∃ front o back, chars = front ++ (o, ';') :: back ∧ Unended depth front ∧
      (depth.behind (front.map Prod.snd)).isTopLevel = true ∧ findTerminator depth chars = .ok o) ∨
    Unended depth chars ∧ findTerminator depth chars = .error (depth.behind (chars.map Prod.snd)) := by
  induction chars generalizing depth with
  | nil => exact .inr ⟨fun front o back split => by simp at split, rfl⟩
  | cons head chars ih =>
    obtain ⟨o, c⟩ := head
    rw [findTerminator]
    split
    · rename_i ends
      rw [Bool.and_eq_true, beq_iff_eq] at ends
      obtain ⟨rfl, level⟩ := ends
      exact .inl ⟨[], o, chars, rfl, fun front p back split => by simp at split, level, rfl⟩
    · rename_i goes
      have here : c = ';' → depth.isTopLevel = false := by
        rintro rfl
        simpa using goes
      rcases ih (depth.apply true c) with ⟨front, p, back, rfl, before, level, found⟩ | ⟨none, found⟩
      · exact .inl ⟨(o, c) :: front, p, back, rfl, unendedCons here before, level, found⟩
      · exact .inr ⟨unendedCons here none, found⟩

section
variable {line : List Char} {classes : List CharClass} {first : Nat}

def keptFrom (line : List Char) (classes : List CharClass) (first : Nat) : List (Nat × Char) :=
  kept 0 (line.drop first) (classes.drop first)

theorem frontCode {front back : List (Nat × Char)} {o : Nat} {c : Char}
    (split : keptFrom line classes first = front ++ (o, c) :: back) :
    front.map Prod.snd = codeIn line classes first (first + o) := by
  have found : (kept 0 (line.drop first) (classes.drop first))[front.length]? = some (0 + o, c) := by
    rw [← keptFrom, split]
    simp
  have before := keptBefore found
  rw [← keptFrom, split, List.take_left' rfl] at before
  rw [before, Edit.keptZip, codeIn, List.drop_take, Nat.add_sub_cancel_left, List.zip_eq_zipWith, List.zip_eq_zipWith,
    List.drop_zipWith, List.take_zipWith]

theorem splitShown {text : List Char} {front back : List (Nat × Char)} {o : Nat} {c : Char}
    (split : keptFrom text classes first = front ++ (o, c) :: back) :
    text[first + o]? = some c ∧ classes[first + o]? = some .code := by
  have member : (o, c) ∈ keptFrom text classes first := by
    rw [split]
    exact List.mem_append_right _ List.mem_cons_self
  obtain ⟨i, same, here, live⟩ := keptMember.mp member
  obtain rfl : o = i := by omega
  rw [List.getElem?_drop] at here live
  exact ⟨here, live⟩

theorem shownSplit {text : List Char} {o : Nat} {c : Char} (here : text[first + o]? = some c)
    (live : classes[first + o]? = some .code) :
    ∃ front back, keptFrom text classes first = front ++ (o, c) :: back := by
  refine List.append_of_mem (keptMember.mpr ⟨o, by omega, ?_, ?_⟩)
  · rwa [List.getElem?_drop]
  · rwa [List.getElem?_drop]

-- Offsets rise, so that an earlier split lies inside the part before a later one.
theorem splitWithin {front back front' back' : List (Nat × Char)} {o p : Nat} {c d : Char}
    (split : keptFrom line classes first = front ++ (p, d) :: back)
    (split' : keptFrom line classes first = front' ++ (o, c) :: back') (before : o < p) :
    ∃ more, front = front' ++ (o, c) :: more := by
  have rising : (keptFrom line classes first).Pairwise (fun a b => a.1 < b.1) :=
    List.pairwise_map.mp (keptRising 0 _ _)
  rw [split] at split' rising
  rcases List.append_eq_append_iff.mp split' with ⟨between, rfl, behind⟩ | ⟨between, rfl, behind⟩
  · cases between with
    | nil =>
      cases behind
      omega
    | cons next between =>
      have later := (List.pairwise_append.mp rising).2.1
      have inside : (o, c) ∈ back := by
        obtain ⟨-, rfl⟩ := List.cons.inj behind
        simp
      have := (List.pairwise_cons.mp later).1 _ inside
      simp only at this
      omega
  · cases between with
    | nil =>
      cases behind
      omega
    | cons next between =>
      obtain ⟨rfl, -⟩ := List.cons.inj behind
      exact ⟨between, rfl⟩

theorem terminatesIff {o : Nat} : Terminates line classes first o ↔ ∃ p front back, o = first + p ∧
    keptFrom line classes first = front ++ (p, ';') :: back ∧
      (Brackets.behind {} (front.map Prod.snd)).isTopLevel = true := by
  constructor
  · rintro ⟨behind, semicolon, live, level⟩
    obtain ⟨p, rfl⟩ := Nat.exists_eq_add_of_le behind
    obtain ⟨front, back, split⟩ := shownSplit semicolon live
    refine ⟨p, front, back, rfl, split, ?_⟩
    rw [frontCode split]
    exact levelIff.mpr level
  · rintro ⟨p, front, back, rfl, split, level⟩
    obtain ⟨semicolon, live⟩ := splitShown split
    rw [frontCode split] at level
    exact ⟨by omega, semicolon, live, levelIff.mp level⟩

theorem unendedBefore {front back : List (Nat × Char)} {o p : Nat} (unended : Unended {} front)
    (split : keptFrom line classes first = front ++ (p, ';') :: back) (before : o < first + p) :
    ¬ Terminates line classes first o := by
  intro ends
  obtain ⟨q, front', back', rfl, split', level⟩ := terminatesIff.mp ends
  obtain ⟨more, rfl⟩ := splitWithin split split' (by omega)
  have inside := unended front' q more rfl
  rw [level] at inside
  contradiction

end

theorem resumed {line : List Char} {state : LineState} {i : Nat}
    (live : (classify line state).classes[i]? = some .code) :
    classify (line.drop i) {} = ⟨(classify line state).classes.drop i, (classify line state).exit⟩ := by
  rw [classifyReads] at live
  have inside := (List.getElem?_eq_some_iff.mp live).1
  rw [classesLength] at inside
  have size : (line.take i).length = i := List.length_take_of_le (Nat.le_of_lt inside)
  have around : (state.mode.classes none (line.take i ++ line.drop i))[(line.take i).length]? = some .code := by
    rwa [List.take_append_drop, size]
  have behind := classesFromCode around
  obtain ⟨c, tail, starts, reached⟩ := codeReached around
  have exit : state.mode.after none line = Mode.code.after none (line.drop i) := by
    conv_lhs => rw [← List.take_append_drop i line, afterAppend]
    rw [starts, List.head?_cons, Option.some_or, reached]
  rw [List.take_append_drop, size] at behind
  rw [classifyReads, classifyReads, behind, exit]
  rfl

theorem resumedExactly {line : List Char} {state : LineState} {i : Nat}
    (live : (classify line state).classes[i]? = some .code) :
    classify (line.drop i) {} = ⟨(classify line state).classes.drop i, (classify line state).exit⟩ ∧
      ((∃ o, Terminates line (classify line state).classes i o ∧
          (∀ p < o, ¬ Terminates line (classify line state).classes i p) ∧ statementEnd line i = o + 1) ∨
        (∀ o, ¬ Terminates line (classify line state).classes i o) ∧ statementEnd line i = line.length) := by
  have whole := resumed live
  have chars : (codeOf (line.drop i) {}).chars = keptFrom line (classify line state).classes i := by
    rw [codeChars, whole]
    rfl
  refine ⟨whole, ?_⟩
  rw [statementEnd, chars]
  rcases terminatorSplit {} (keptFrom line (classify line state).classes i) with
    ⟨front, o, back, split, before, level, found⟩ | ⟨none, found⟩
  · refine .inl ⟨i + o, terminatesIff.mpr ⟨o, front, back, rfl, split, level⟩, ?_, by rw [found]⟩
    exact fun p earlier => unendedBefore before split earlier
  · refine .inr ⟨fun o ends => ?_, by rw [found]⟩
    obtain ⟨p, front, back, -, split, level⟩ := terminatesIff.mp ends
    rw [none front p back split] at level
    contradiction

def callBehindComment : List Char := "a */ f(\")\", g); h(';'); // ;".toList

-- From inside the parentheses, their own closer closes nothing.
theorem resumedInCall : (classify callBehindComment { inBlockComment := true }).classes[12]? = some .code ∧
    classify (callBehindComment.drop 12) {} =
      ⟨(classify callBehindComment { inBlockComment := true }).classes.drop 12, {}⟩ ∧
    statementEnd callBehindComment 12 = 15 ∧
    Terminates callBehindComment (classify callBehindComment { inBlockComment := true }).classes 12 14 := by
  have live : (classify callBehindComment { inBlockComment := true }).classes[12]? = some .code := by decide
  have stop : statementEnd callBehindComment 12 = 15 := by decide
  obtain ⟨whole, ⟨o, ends, -, found⟩ | ⟨-, found⟩⟩ := resumedExactly live
  · obtain rfl : o = 14 := by omega
    exact ⟨live, whole, stop, ends⟩
  · rw [stop] at found
    contradiction

end DebugSweep.Lexis
