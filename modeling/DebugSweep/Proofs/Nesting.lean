import DebugSweep.Proofs.Residue

/-! Brackets behind an open parenthesis. Main statements: as long as code does not close the parenthesis,
nothing is cut off in it, and a call whose argument closes all that it opens is one candidate. -/
namespace DebugSweep.Lexis
open Text

/-- The closers of the brackets open behind a character, innermost first; none if it closes the
parenthesis around them. -/
def turned (before closers : List Char) (c : Char) : Option (List Char) :=
  if c == '(' then some (')' :: closers)
  else if c == '[' then some (']' :: closers)
  else if c == '\x7b' && opensExpression before then some ('\x7d' :: closers)
  else
    match closers with
    | closer :: outer => some (if c == closer then outer else closer :: outer)
    | [] => if c == ')' then none else some []

def opened (before closers : List Char) : List Char → Option (List Char)
  | [] => some closers
  | c :: rest => (turned before closers c).bind (opened (c :: before) · rest)

theorem openedAppend (before closers left right : List Char) :
    opened before closers (left ++ right) =
      (opened before closers left).bind (opened (left.reverse ++ before) · right) := by
  induction left generalizing before closers with
  | nil => rfl
  | cons c left ih =>
    rw [List.cons_append, opened, opened]
    cases turned before closers c with
    | none => rfl
    | some closers' => simpa using ih (c :: before) closers'

theorem openedNeutral {before : List Char} (neutral : Neutral before) (near closers text : List Char) :
    opened (near ++ before) closers text = opened near closers text := by
  induction text generalizing near closers with
  | nil => rfl
  | cons c text ih =>
    have same : turned (near ++ before) closers c = turned near closers c := by
      unfold turned
      rw [neutral near]
    rw [opened, opened, same]
    cases turned near closers c with
    | none => rfl
    | some closers' => exact ih (c :: near) closers'

theorem turnedSome {c : Char} (other : c ≠ ')') (before closers : List Char) :
    (turned before closers c).isSome := by
  unfold turned
  repeat' split
  all_goals first | rfl | simp_all

theorem openedSome {text : List Char} (other : ')' ∉ text) (before closers : List Char) :
    (opened before closers text).isSome := by
  induction text generalizing before closers with
  | nil => rfl
  | cons c text ih =>
    obtain ⟨here, later⟩ := List.ne_and_not_mem_of_not_mem_cons other
    obtain ⟨closers', turns⟩ := Option.isSome_iff_exists.mp (turnedSome here.symm before closers)
    rw [opened, turns]
    exact ih later _ _

theorem blankUnlisted {c : Char} {marks : List Char} (blank : isBlank c = true)
    (visible : marks.all (fun d => !isBlank d) = true) : marks.contains c = false := by
  rw [← Bool.not_eq_true, List.contains_iff_mem]
  intro listed
  have shown := List.all_eq_true.mp visible c listed
  rw [blank] at shown
  contradiction

namespace Cutter

def keepAll (s : Cutter) (text closers : List Char) : Cutter :=
  { s with offset := s.offset + text.length, pending := text.reverse ++ s.pending
           before := text.reverse ++ s.before, closers }

theorem keepAllAppend (s : Cutter) (left between right closers : List Char) :
    (s.keepAll left between).keepAll right closers = s.keepAll (left ++ right) closers := by
  simp [keepAll, Nat.add_assoc]

theorem keepOne (s : Cutter) (c : Char) (closers : List Char) :
    { s.keep c with closers } = s.keepAll [c] closers := rfl

theorem stepInside {s : Cutter} {c : Char} {closers closers' outer : List Char} (still : s.skip = 0)
    (inside : s.closers = closers ++ ')' :: outer) (turns : turned s.before closers c = some closers')
    (rest : List Char) : s.step c rest = { s.keep c with closers := closers' ++ ')' :: outer } := by
  unfold turned at turns
  unfold step
  rw [if_neg (by omega)]
  split at turns
  · rename_i opens
    cases turns
    rw [if_pos opens, inside]
    rfl
  · rename_i round
    rw [if_neg round]
    split at turns
    · rename_i opens
      cases turns
      rw [if_pos opens, inside]
      rfl
    · rename_i square
      rw [if_neg square]
      split at turns
      · rename_i opens
        cases turns
        rw [if_pos opens, inside]
        rfl
      · rename_i brace
        rw [if_neg brace]
        split at turns
        · rename_i closer outer'
          cases turns
          rw [inside]
          dsimp only [List.cons_append]
          split
          · rfl
          · simp [keep, inside]
        · split at turns
          · contradiction
          · rename_i other
            cases turns
            rw [inside]
            dsimp only [List.nil_append]
            rw [if_neg other]
            simp [keep, inside]

-- The induction is on the text; what the scanner is inside of stays open.
theorem throughInside {s : Cutter} {text closers closers' outer : List Char} (still : s.skip = 0)
    (inside : s.closers = closers ++ ')' :: outer) (opens : opened s.before closers text = some closers')
    (rest : List Char) : s.through rest text = s.keepAll text (closers' ++ ')' :: outer) := by
  induction text generalizing s closers with
  | nil =>
    cases opens
    rw [← inside]
    rfl
  | cons c text ih =>
    rw [opened] at opens
    obtain ⟨between, turns, later⟩ := Option.bind_eq_some_iff.mp opens
    have step := stepInside still inside turns (text ++ rest)
    rw [through, step, ih (by exact still) rfl (by exact later), keepOne, keepAllAppend]
    rfl

/-- Characters that cut nothing off and open nothing. -/
def plain (c : Char) : Bool := !(['(', '[', '\x7b', '\x7d', ';', '?', '<'].contains c)

theorem noTag {c : Char} (question : c ≠ '?') (less : c ≠ '<') (rest : List Char) :
    tagLength (c :: rest) = 0 := by
  by_contra some
  rcases (tagHere (Nat.pos_of_ne_zero some)).head with mark | mark
  · exact question (lowerPlain (by decide) mark)
  · exact less (lowerPlain (by decide) mark)

theorem throughPlain {s : Cutter} {text : List Char} (still : s.skip = 0) (closed : s.closers = [])
    (plains : text.all plain = true) (rest : List Char) : s.through rest text = s.keepAll text [] := by
  induction text generalizing s with
  | nil =>
    obtain ⟨offset, start, pending, before, closers, skip, done⟩ := s
    obtain rfl : closers = [] := closed
    rfl
  | cons c text ih =>
    rw [List.all_cons, Bool.and_eq_true] at plains
    have kept : s.step c (text ++ rest) = s.keep c := by
      obtain ⟨round, square, brace, closing, semicolon, question, less⟩ : c ≠ '(' ∧ c ≠ '[' ∧ c ≠ '\x7b' ∧
          c ≠ '\x7d' ∧ c ≠ ';' ∧ c ≠ '?' ∧ c ≠ '<' := by simpa [plain] using plains.1
      simp [step, still, closed, noTag question less, round, square, brace, closing, semicolon]
    rw [through, kept, ih (by exact still) (by exact closed) plains.2]
    exact keepAllAppend s [c] s.closers text []

theorem blanksPlain {text : List Char} (blank : allBlank text = true) : text.all plain = true := by
  refine List.all_eq_true.mpr ?_
  intro c member
  have here := List.all_eq_true.mp blank c member
  rw [plain, blankUnlisted here rfl]
  rfl

theorem stepSemicolon {s : Cutter} (still : s.skip = 0) (closed : s.closers = []) (rest : List Char) :
    s.step ';' rest = s.finish := by
  simp [step, still, closed, noTag (show ';' ≠ '?' by decide) (show ';' ≠ '<' by decide), finish]

end Cutter

theorem roundNeutral (more : List Char) : Neutral ('(' :: more) := by
  apply neutralOf
  · rw [List.dropWhile_cons_of_neg (by decide)]
    simp
  all_goals simp

section
variable {front body : List Char}

theorem throughCall {closers : List Char} (plains : front.all Cutter.plain = true)
    (opens : opened [] [] body = some closers) (rest : List Char) :
    Cutter.through {} rest (front ++ '(' :: body) =
      Cutter.keepAll {} (front ++ '(' :: body) (closers ++ [')']) := by
  have begun : Cutter.through {} (body ++ rest) (front ++ ['(']) = Cutter.keepAll {} (front ++ ['(']) [')'] := by
    rw [Cutter.throughAppend, Cutter.throughPlain rfl rfl plains]
    exact Cutter.keepAllAppend {} front [] ['('] [')']
  have behind : opened (Cutter.keepAll {} (front ++ ['(']) [')']).before [] body = some closers := by
    simpa [Cutter.keepAll] using (openedNeutral (roundNeutral front.reverse) [] [] body).trans opens
  have passed : (Cutter.keepAll {} (front ++ ['(']) [')']).through rest body = _ :=
    Cutter.throughInside rfl (rfl : _ = [] ++ ')' :: []) behind rest
  rw [List.append_cons, Cutter.throughAppend, begun, passed, Cutter.keepAllAppend]

theorem segmentsInside (plains : front.all Cutter.plain = true) (inside : (opened [] [] body).isSome) :
    segments (front ++ '(' :: body) = [] := by
  obtain ⟨closers, opens⟩ := Option.isSome_iff_exists.mp inside
  rw [segments, ← List.append_nil (front ++ '(' :: body), Cutter.runThrough, throughCall plains opens]
  rfl

theorem segmentsCall {word : List Char} (plains : front.all Cutter.plain = true)
    (closes : opened [] [] body = some []) (words : word.all Cutter.plain = true) :
    segments (front ++ '(' :: body ++ ')' :: ';' :: (word ++ [';'])) =
      [⟨front ++ '(' :: body ++ [')', ';'], 0, front.length + body.length + 2⟩,
        ⟨word ++ [';'], front.length + body.length + 3, front.length + body.length + 3 + word.length⟩] := by
  rw [segments, Cutter.runThrough, throughCall plains closes, Cutter.run, Cutter.run]
  have closed : (Cutter.keepAll {} (front ++ '(' :: body) [')']).step ')' (';' :: (word ++ [';'])) =
      Cutter.keepAll {} (front ++ '(' :: body ++ [')']) [] :=
    Cutter.keepAllAppend {} (front ++ '(' :: body) [')'] [')'] []
  have halted := Cutter.throughPlain (s := (Cutter.keepAll {} (front ++ '(' :: body ++ [')']) []).finish)
    rfl rfl words [';']
  rw [List.nil_append, closed, Cutter.stepSemicolon rfl rfl, Cutter.runThrough, halted, Cutter.run,
    Cutter.stepSemicolon rfl rfl]
  simp only [Cutter.run, Cutter.finish, Cutter.cut, Cutter.keepAll, List.append_assoc, List.cons_append,
    List.length_append, List.length_cons, List.length_nil, Nat.zero_add, List.reverse_append, List.reverse_cons,
    List.reverse_nil, List.nil_append, List.append_nil, List.reverse_reverse, List.cons.injEq,
    Segment.mk.injEq, true_and, and_true]
  omega

end
end DebugSweep.Lexis
