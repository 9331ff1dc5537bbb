import DebugSweep.Proofs.AcrossLines
import DebugSweep.Proofs.Groups
import Mathlib.Order.Bounds.Basic

/-! Where a bracketed group closes. The walk over a group and the classes of its characters pass over quoted text in
different ways: one counts backslashes, the other remembers the last one. Main statement: without comments, a group
closes at the first offset up to which its code has as many closers as openers. -/
namespace DebugSweep.Text

/-- The item at a signed index. A negative one counts from the end. -/
def itemAt? {α : Type} (items : List α) (index : Int) : Option α :=
  if 0 ≤ index then items[index.toNat]?
  else if -(items.length : Int) ≤ index then items[(items.length + index).toNat]?
  else none

theorem aheadStarts {α : Type} {items : List α} {index : Int} {item : α} (here : itemAt? items index = some item) :
    -(items.length : Int) ≤ index ∧ (ahead index items).head? = some item := by
  unfold itemAt? at here
  unfold ahead
  split at here
  · rename_i front
    rw [if_neg (by omega), List.head?_drop]
    exact ⟨by omega, here⟩
  · rename_i back
    obtain ⟨known, here⟩ := Option.ite_none_right_eq_some.mp here
    rw [if_pos (by omega), List.head?_append, List.head?_drop, here]
    exact ⟨known, rfl⟩

end DebugSweep.Text

namespace DebugSweep.Edit
open Text Lexis

/-- In the code up to the offset and with it, as many closers stand as openers. -/
structure EvenAt (opener closer : Char) (row : List (Char × CharClass)) (n : Nat) : Prop where
  inside : n < row.length
  even : (codeAmong (row.take (n + 1))).count opener = (codeAmong (row.take (n + 1))).count closer

structure Levels (opener closer : Char) (more : Int) (row : List (Char × CharClass)) (n : Nat) : Prop where
  inside : n < row.length
  level : more + (codeAmong (row.take (n + 1))).count opener = (codeAmong (row.take (n + 1))).count closer

section
variable {opener closer : Char}

def weight (opener closer : Char) (mark : Char × CharClass) : Int :=
  ((codeAmong [mark]).count opener : Int) - (codeAmong [mark]).count closer

section
variable {more : Int} {mark : Char × CharClass} {row : List (Char × CharClass)}

theorem levelsHere : Levels opener closer more (mark :: row) 0 ↔ more + weight opener closer mark = 0 := by
  unfold weight
  constructor
  · rintro ⟨-, level⟩
    simp only [Nat.zero_add, List.take_succ_cons, List.take_zero] at level
    omega
  · intro level
    refine ⟨Nat.succ_pos _, ?_⟩
    simp only [Nat.zero_add, List.take_succ_cons, List.take_zero]
    omega

theorem levelsLater {n : Nat} : Levels opener closer more (mark :: row) (n + 1) ↔
    Levels opener closer (more + weight opener closer mark) row n := by
  have parts : codeAmong (mark :: row.take (n + 1)) = codeAmong [mark] ++ codeAmong (row.take (n + 1)) :=
    codeAmongAppend [mark] _
  unfold weight
  constructor
  · rintro ⟨inside, level⟩
    rw [List.take_succ_cons, parts, List.count_append, List.count_append] at level
    exact ⟨Nat.lt_of_succ_lt_succ inside, by omega⟩
  · rintro ⟨inside, level⟩
    refine ⟨Nat.succ_lt_succ inside, ?_⟩
    rw [List.take_succ_cons, parts, List.count_append, List.count_append]
    omega

theorem evenLevels {n : Nat} : EvenAt opener closer row n ↔ Levels opener closer 0 row n :=
  ⟨fun ⟨inside, even⟩ => ⟨inside, by omega⟩, fun ⟨inside, level⟩ => ⟨inside, by omega⟩⟩

theorem weightSilent {c : Char} {cls : CharClass} (silent : cls ≠ .code) : weight opener closer (c, cls) = 0 := by
  simp [weight, codeAmong, silent]

theorem weightCode (c : Char) : weight opener closer (c, .code) =
    (if c = opener then 1 else 0) - (if c = closer then 1 else 0) := by
  simp only [weight, codeAmong, List.filter_cons_of_pos, List.filter_nil, List.map_cons, List.map_nil,
    List.count_singleton, beq_iff_eq]
  split <;> split <;> rfl

def Found (opener closer : Char) (more : Int) (row : List (Char × CharClass)) (offset : Int) (found : Option Int) :
    Prop :=
  (∃ n : Nat, IsLeast {n | Levels opener closer more row n} n ∧ found = some (offset + n)) ∨
    (∀ n, ¬ Levels opener closer more row n) ∧ found = none

theorem Found.later {offset : Int} {found : Option Int} (unlevel : more + weight opener closer mark ≠ 0)
    (behind : Found opener closer (more + weight opener closer mark) row (offset + 1) found) :
    Found opener closer more (mark :: row) offset found := by
  rcases behind with ⟨n, ⟨level, least⟩, rfl⟩ | ⟨none, rfl⟩
  · refine .inl ⟨n + 1, ⟨levelsLater.mpr level, fun k level' => ?_⟩, by simp; omega⟩
    cases k with
    | zero => exact absurd (levelsHere.mp level') unlevel
    | succ k => exact Nat.succ_le_succ (least (levelsLater.mp level'))
  · refine .inr ⟨fun n level => ?_, rfl⟩
    cases n with
    | zero => exact unlevel (levelsHere.mp level)
    | succ n => exact none n (levelsLater.mp level)

end

section
variable {b b' : Balance} {mode : Mode} {c : Char} {next : Option Char} {ends : Bool}

theorem Balance.stepSome (opener closer : Char) (deep : 1 ≤ b.depth) (c : Char) :
    ∃ ends b', b.step opener closer c = some (ends, b') := by
  unfold Balance.step
  dsimp only
  repeat' split
  all_goals first | exact ⟨_, _, rfl⟩ | omega

theorem Balance.Stepped.weighs (steps : b.Stepped opener closer c ends b') (pair : Paired opener closer)
    (reads : b.Reads mode)
    (plain : (mode.step c next).1 ≠ .lineComment ∧ (mode.step c next).1 ≠ .blockComment) :
    b'.depth = b.depth + weight opener closer (c, (mode.step c next).1) := by
  have live (outside : b.quote = none) (unquoted : isQuote c = false) := reads.live outside unquoted plain
  obtain ⟨-, -, apart⟩ := pair.plain
  cases steps with
  | @quoted q inside =>
    obtain ⟨-, rfl⟩ : isQuote q = true ∧ mode = .literal (some q) (b.slashes % 2 == 1) := by
      simpa [Balance.Reads, inside] using reads
    rw [weightSilent fun code => absurd (stepCode code) (by simp)]
    simp
  | quotes outside mark =>
    obtain rfl : mode = .code := by simpa [Balance.Reads, outside] using reads
    rw [weightSilent (by simp [Mode.step, mark])]
    simp
  | opens outside unquoted here =>
    rw [live outside unquoted, weightCode, if_pos here, if_neg (here ▸ apart.symm)]
    simp
  | ends outside unquoted here outermost =>
    rw [live outside unquoted, weightCode, if_neg (here ▸ apart), if_pos here, outermost]
    rfl
  | closes outside unquoted here deep =>
    rw [live outside unquoted, weightCode, if_neg (here ▸ apart), if_pos here]
    dsimp only
    omega
  | passes outside unquoted opening closing =>
    rw [live outside unquoted, weightCode, if_neg opening, if_neg closing]
    simp

theorem Balance.Stepped.deepens (steps : b.Stepped opener closer c ends b') (deep : 1 ≤ b.depth) :
    (ends = true ∧ b'.depth = 0) ∨ (ends = false ∧ 1 ≤ b'.depth) := by
  cases steps with
  | ends => exact .inl ⟨rfl, rfl⟩
  | quoted | quotes | passes => exact .inr ⟨rfl, deep⟩
  | opens => exact .inr ⟨rfl, by dsimp only; omega⟩
  | closes _ _ _ deeper => exact .inr ⟨rfl, by dsimp only; omega⟩

-- The induction is on the text; the depth of the walk is what its openers are more than its closers.
theorem Balance.runFinds {text : List Char} {offset : Int} (pair : Paired opener closer) (reads : b.Reads mode)
    (deep : 1 ≤ b.depth) (plain : Commentless mode text) :
    Found opener closer b.depth (text.zip (mode.classes none text)) offset (b.run opener closer offset text) := by
  induction text generalizing b mode offset with
  | nil => exact .inr ⟨fun n ⟨inside, _⟩ => absurd inside (Nat.not_lt_zero n), rfl⟩
  | cons c text ih =>
    obtain ⟨here, later⟩ := plain.cons
    obtain ⟨ends, b', steps⟩ := Balance.stepSome opener closer deep c
    have stepped := Balance.stepped steps
    have weighs := stepped.weighs pair reads here
    have row : (c :: text).zip (mode.classes none (c :: text)) = (c, (mode.step c text.head?).1) ::
        text.zip ((mode.step c text.head?).2.classes none text) := by
      rw [Mode.classes, Option.or_none, List.zip_cons_cons]
    rw [row, Balance.run, steps]
    rcases stepped.deepens deep with ⟨rfl, zero⟩ | ⟨rfl, deep'⟩
    · refine .inl ⟨0, ⟨levelsHere.mpr (by omega), fun n _ => Nat.zero_le n⟩, by simp⟩
    · have behind := @ih b' _ (offset + 1) (reads.step here stepped) deep' later
      rw [weighs] at behind
      exact behind.later (by omega)

end

theorem groupFinds {text : List Char} (pair : Paired opener closer) (starts : text.head? = some opener)
    (plain : Commentless .code text) (offset : Int) :
    Found opener closer 0 (rowOf {} text) offset (Balance.run opener closer {} offset text) := by
  obtain ⟨tail, rfl⟩ := List.head?_eq_some_iff.mp starts
  obtain ⟨unquoted, -, apart⟩ := pair.plain
  have step : Mode.step .code opener tail.head? = (.code, .code) := codePlain unquoted plain.cons.1
  have later : Commentless .code tail := by
    have behind := plain.cons.2
    rwa [step] at behind
  have row : rowOf {} (opener :: tail) = (opener, .code) :: tail.zip (Mode.code.classes none tail) := by
    have modes : (LineState.mode {}) = .code := rfl
    rw [rowOf, classifyReads, modes, Mode.classes, Option.or_none, step, List.zip_cons_cons]
  have runs : Balance.run opener closer {} offset (opener :: tail) =
      (Balance.bare 1).run opener closer (offset + 1) tail :=
    (runOutside opener).trans (by rw [if_neg (by simp [unquoted]), if_pos rfl]; rfl)
  have weighs : weight opener closer (opener, .code) = 1 := by
    rw [weightCode, if_pos rfl, if_neg apart.symm]
    rfl
  have reads : (Balance.bare 1).Reads .code := rfl
  rw [row, runs]
  apply Found.later
  · omega
  · rw [weighs]
    exact Balance.runFinds pair reads (by decide) later

/-- The walk with the backslashes before a quotation mark counted backwards, not past where the walk began. -/
def backRun (opener closer : Char) (passed : List Char) (quote : Option Char) (depth offset : Int) :
    List Char → Option Int
  | [] => none
  | c :: rest =>
      match quote with
      | some q =>
          let still := if c == q && escapes passed % 2 == 0 then none else some q
          backRun opener closer (passed ++ [c]) still depth (offset + 1) rest
      | none =>
          if isQuote c then backRun opener closer (passed ++ [c]) (some c) depth (offset + 1) rest
          else if c == opener then backRun opener closer (passed ++ [c]) none (depth + 1) (offset + 1) rest
          else if c == closer then
            if depth - 1 = 0 then some offset
            else if depth - 1 < 0 then none
            else backRun opener closer (passed ++ [c]) none (depth - 1) (offset + 1) rest
          else backRun opener closer (passed ++ [c]) none depth (offset + 1) rest

theorem runBackwards {b : Balance} {passed : List Char} (counts : b.slashes = escapes passed) (offset : Int)
    (text : List Char) :
    b.run opener closer offset text = backRun opener closer passed b.quote b.depth offset text := by
  induction text generalizing b passed offset with
  | nil => rfl
  | cons c text ih =>
    obtain ⟨depth, quote, slashes⟩ := b
    obtain rfl : slashes = escapes passed := counts
    have next : (if c == '\\' then escapes passed + 1 else 0) = escapes (passed ++ [c]) := by
      rw [escapesNext]
      simp only [beq_iff_eq]
    cases quote with
    | some q =>
      rw [Balance.run, Balance.step, backRun]
      exact ih next _
    | none =>
      have outermost : depth - 1 = 0 ↔ depth = 1 := by omega
      have shallow : depth - 1 < 0 ↔ depth < 1 := by omega
      rw [Balance.run, Balance.step, backRun]
      dsimp only
      rw [next]
      simp only [beq_iff_eq, outermost, shallow]
      split_ifs
      all_goals first | rfl | exact ih rfl _

theorem scanAhead {source : List Char} {start : Int} (known : -(source.length : Int) ≤ start) :
    scanBalanced source start opener closer = .ok (Balance.run opener closer {} start (ahead start source)) := by
  rw [scanBalanced, if_neg (by omega), aheadOnward]

theorem closedWhereEven {source : List Char} {start : Int} (pair : Paired opener closer)
    (here : itemAt? source start = some opener)
    (plain : ∀ cls ∈ (classify (ahead start source) {}).classes, cls ≠ .lineComment ∧ cls ≠ .blockComment) :
    scanBalanced source start opener closer = .ok (backRun opener closer [] none 0 start (ahead start source)) ∧
      (∀ i, scanBalanced source start opener closer = .ok (some i) ↔
        ∃ n : Nat, i = start + n ∧ IsLeast {n | EvenAt opener closer (rowOf {} (ahead start source)) n} n) ∧
      (scanBalanced source start opener closer = .ok none ↔
        ∀ n, ¬ EvenAt opener closer (rowOf {} (ahead start source)) n) := by
  obtain ⟨known, starts⟩ := aheadStarts here
  have backwards := @runBackwards opener closer {} [] rfl start (ahead start source)
  have commentless : Commentless .code (ahead start source) := by
    rw [classifyReads] at plain
    exact plain
  refine ⟨by rw [scanAhead known, backwards], ?_⟩
  simp only [scanAhead known, evenLevels, Except.ok.injEq]
  rcases groupFinds pair starts commentless start with ⟨n, least, found⟩ | ⟨none, found⟩
  · simp only [found, Option.some.injEq]
    refine ⟨fun i => ⟨fun same => ⟨n, same.symm, least⟩, ?_⟩, by simp, fun none => absurd least.1 (none n)⟩
    rintro ⟨n', rfl, least'⟩
    rw [least.unique least']
  · rw [found]
    refine ⟨fun i => ⟨by simp, ?_⟩, fun _ => none, fun _ => rfl⟩
    rintro ⟨n, -, least⟩
    exact absurd least.1 (none n)

def quotedCloser : List Char := "g('\\\\\\')', (1)) + 2".toList

theorem quotedCloserPassed : itemAt? quotedCloser 1 = some '(' ∧
    (∀ cls ∈ (classify (ahead 1 quotedCloser) {}).classes, cls ≠ .lineComment ∧ cls ≠ .blockComment) ∧
    scanBalanced quotedCloser 1 '(' ')' = .ok (some 14) ∧
    IsLeast {n | EvenAt '(' ')' (rowOf {} (ahead 1 quotedCloser)) n} 13 := by
  have here : itemAt? quotedCloser 1 = some '(' := by decide
  have plain : ∀ cls ∈ (classify (ahead 1 quotedCloser) {}).classes, cls ≠ .lineComment ∧ cls ≠ .blockComment := by
    decide
  have closes : scanBalanced quotedCloser 1 '(' ')' = .ok (some 14) := by decide
  obtain ⟨-, found, -⟩ := closedWhereEven (.inl ⟨rfl, rfl⟩) here plain
  obtain ⟨n, same, least⟩ := (found 14).mp closes
  obtain rfl : n = 13 := by omega
  exact ⟨here, plain, closes, least⟩

end

end DebugSweep.Edit
