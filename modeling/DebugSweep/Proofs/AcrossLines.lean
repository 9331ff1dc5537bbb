import DebugSweep.Proofs.Insertions
import DebugSweep.Proofs.Lexemes
import DebugSweep.Proofs.Terminators

/-! Where a statement ends that goes on over lines. Main statement: from a place on, the lines are read one after the
other, and the statement ends behind their first semicolon of code that no bracket opened since encloses, if there is
one; in a document of one line this is the end that the line alone gives. -/
namespace DebugSweep.Text

/-- The items from a signed index on. A negative one counts from the end, and all items follow behind the end. -/
def ahead {α : Type} (index : Int) (items : List α) : List α :=
  if index < 0 then items.drop (items.length + index).toNat ++ items else items.drop index.toNat

theorem aheadOnward {α : Type} (index : Int) (items : List α) :
    onward index items ++ (if index < 0 then items else []) = ahead index items := by
  unfold ahead
  split
  · rename_i back
    rw [onward, position, if_pos back]
  · rename_i front
    obtain ⟨n, rfl⟩ := Int.eq_ofNat_of_zero_le (Int.not_lt.mp front)
    rw [List.append_nil, Edit.onwardNat]
    rfl

end DebugSweep.Text

namespace DebugSweep.Lexis
open Text

def marked (state : LineState) (lines : List (List Char)) : List (List (Char × CharClass)) :=
  (lines.zip (threaded state lines)).map (fun (line, read) => line.zip read.classes)

def rowOf (state : LineState) (line : List Char) : List (Char × CharClass) := line.zip (classify line state).classes

def codeAmong (marks : List (Char × CharClass)) : List Char :=
  (marks.filter (fun mark => mark.2 == .code)).map Prod.fst

def marksBefore (rows : List (List (Char × CharClass))) (n p : Nat) : List (Char × CharClass) :=
  (rows.take n).flatten ++ ((rows[n]?).getD []).take p

/-- A semicolon of code stands at the place of the row, and the code before it leaves no bracket open. -/
structure EndsAt (rows : List (List (Char × CharClass))) (n p : Nat) : Prop where
  semicolon : (rows[n]?).bind (·[p]?) = some (';', .code)
  level : Level (codeAmong (marksBefore rows n p))

structure FirstEnd (rows : List (List (Char × CharClass))) (n p : Nat) : Prop where
  ends : EndsAt rows n p
  least : ∀ n' p', n' < n ∨ n' = n ∧ p' < p → ¬ EndsAt rows n' p'

theorem FirstEnd.unique {rows : List (List (Char × CharClass))} {n n' p p' : Nat} (first : FirstEnd rows n p)
    (first' : FirstEnd rows n' p') : n = n' ∧ p = p' := by
  have forward : ¬ (n' < n ∨ n' = n ∧ p' < p) := fun before => first.least n' p' before first'.ends
  have backward : ¬ (n < n' ∨ n = n' ∧ p < p') := fun before => first'.least n p before first.ends
  omega

theorem codeAmongAppend (left right : List (Char × CharClass)) :
    codeAmong (left ++ right) = codeAmong left ++ codeAmong right := by
  rw [codeAmong, List.filter_append, List.map_append]
  rfl

structure RowEnds (earlier : List Char) (row : List (Char × CharClass)) (p : Nat) : Prop where
  semicolon : row[p]? = some (';', .code)
  level : Level (earlier ++ codeAmong (row.take p))

section
variable {passed rows : List (List (Char × CharClass))} {row : List (Char × CharClass)}

theorem endsHere {p : Nat} :
    EndsAt (passed ++ row :: rows) passed.length p ↔ RowEnds (codeAmong passed.flatten) row p := by
  have here : (passed ++ row :: rows)[passed.length]? = some row := by simp
  have before : marksBefore (passed ++ row :: rows) passed.length p = passed.flatten ++ row.take p := by
    rw [marksBefore, List.take_left, here, Option.getD_some]
  constructor
  · rintro ⟨semicolon, level⟩
    rw [here] at semicolon
    rw [before, codeAmongAppend] at level
    exact ⟨semicolon, level⟩
  · rintro ⟨semicolon, level⟩
    exact ⟨by rw [here]; exact semicolon, by rw [before, codeAmongAppend]; exact level⟩

end

section
variable {earlier line : List Char} {classes : List CharClass}

theorem behindAppend (depth : Brackets) (left right : List Char) :
    depth.behind (left ++ right) = (depth.behind left).behind right := List.foldl_append

theorem rowEndsIff {p : Nat} : RowEnds earlier (line.zip classes) p ↔ ∃ front back,
    keptFrom line classes 0 = front ++ (p, ';') :: back ∧
      ((Brackets.behind {} earlier).behind (front.map Prod.snd)).isTopLevel = true := by
  have before {front back : List (Nat × Char)} (split : keptFrom line classes 0 = front ++ (p, ';') :: back) :
      front.map Prod.snd = codeAmong ((line.zip classes).take p) := by
    rw [frontCode split, Nat.zero_add]
    rfl
  constructor
  · rintro ⟨semicolon, level⟩
    obtain ⟨here, live⟩ := List.getElem?_zip_eq_some.mp semicolon
    obtain ⟨front, back, split⟩ := @shownSplit classes 0 line p ';' (by rwa [Nat.zero_add]) (by rwa [Nat.zero_add])
    refine ⟨front, back, split, ?_⟩
    rw [← behindAppend, before split]
    exact levelIff.mpr level
  · rintro ⟨front, back, split, level⟩
    obtain ⟨here, live⟩ := splitShown split
    rw [Nat.zero_add] at here live
    rw [← behindAppend, before split] at level
    exact ⟨List.getElem?_zip_eq_some.mpr ⟨here, live⟩, levelIff.mp level⟩

theorem keptCode : (keptFrom line classes 0).map Prod.snd = codeAmong (line.zip classes) := Edit.keptZip 0 line classes

theorem rowFinds (earlier line : List Char) (state : LineState) :
    (∃ p, RowEnds earlier (rowOf state line) p ∧ (∀ p' < p, ¬ RowEnds earlier (rowOf state line) p') ∧
        findTerminator (Brackets.behind {} earlier) (codeOf line state).chars = .ok p) ∨
      (∀ p, ¬ RowEnds earlier (rowOf state line) p) ∧
        findTerminator (Brackets.behind {} earlier) (codeOf line state).chars =
          .error (Brackets.behind {} (earlier ++ codeAmong (rowOf state line))) := by
  have chars : (codeOf line state).chars = keptFrom line (classify line state).classes 0 := codeChars line state
  rw [chars]
  rcases terminatorSplit (Brackets.behind {} earlier) (keptFrom line (classify line state).classes 0) with
    ⟨front, p, back, split, before, level, found⟩ | ⟨none, found⟩
  · refine .inl ⟨p, rowEndsIff.mpr ⟨front, back, split, level⟩, fun p' less ends => ?_, found⟩
    obtain ⟨front', back', split', level'⟩ := rowEndsIff.mp ends
    obtain ⟨more, rfl⟩ := splitWithin split split' less
    rw [before front' p' more rfl] at level'
    contradiction
  · refine .inr ⟨fun p ends => ?_, ?_⟩
    · obtain ⟨front, back, split, level⟩ := rowEndsIff.mp ends
      rw [none front p back split] at level
      contradiction
    · rw [found, keptCode, behindAppend]
      rfl

end

section
variable {state : LineState} {passed : List (List (Char × CharClass))} {number begin : Int} {lines : List (List Char)}

theorem endsInside {n p : Nat} (ends : EndsAt (passed ++ marked state lines) n p) :
    n < passed.length + lines.length := by
  by_contra outside
  have size : (marked state lines).length = lines.length := by
    have sizes := congrArg List.length (threadedSizes state lines)
    rw [List.length_map, List.length_map] at sizes
    rw [marked, List.length_map, List.length_zip, sizes, Nat.min_self]
  have semicolon := ends.semicolon
  rw [List.getElem?_eq_none (by rw [List.length_append, size]; omega)] at semicolon
  contradiction

-- The induction is on the lines that are still to be read; the brackets that are open are those of what was read.
theorem linesFind (read : ∀ n p, n < passed.length → ¬ EndsAt (passed ++ marked state lines) n p) :
    (∃ n p, FirstEnd (passed ++ marked state lines) (passed.length + n) p ∧
        endInLines state (Brackets.behind {} (codeAmong passed.flatten)) number begin lines =
          some (number + n, (if n = 0 then begin else 0) + p + 1)) ∨
      (∀ n p, ¬ EndsAt (passed ++ marked state lines) n p) ∧
        endInLines state (Brackets.behind {} (codeAmong passed.flatten)) number begin lines = none := by
  induction lines generalizing state passed number begin with
  | nil => exact .inr ⟨fun n p ends => read n p (endsInside ends) ends, rfl⟩
  | cons line rest ih =>
    have rows : marked state (line :: rest) = rowOf state line :: marked (classify line state).exit rest := rfl
    rw [rows] at read ⊢
    rw [endInLines]
    rcases rowFinds (codeAmong passed.flatten) line state with ⟨p, ends, least, found⟩ | ⟨none, found⟩
    · refine .inl ⟨0, p, ⟨endsHere.mpr ends, ?_⟩, by simp [found]⟩
      rintro n' p' (above | ⟨rfl, before⟩)
      · exact read n' p' above
      · exact fun ends' => least p' before (endsHere.mp ends')
    · have further : passed ++ rowOf state line :: marked (classify line state).exit rest =
          (passed ++ [rowOf state line]) ++ marked (classify line state).exit rest := List.append_cons ..
      have size : (passed ++ [rowOf state line]).length = passed.length + 1 := List.length_append
      have code : codeAmong passed.flatten ++ codeAmong (rowOf state line) =
          codeAmong (passed ++ [rowOf state line]).flatten := by
        rw [List.flatten_append, codeAmongAppend, List.flatten_singleton]
      have read' : ∀ n p, n < (passed ++ [rowOf state line]).length →
          ¬ EndsAt ((passed ++ [rowOf state line]) ++ marked (classify line state).exit rest) n p := by
        intro n p above
        rw [size, Nat.lt_succ_iff_lt_or_eq] at above
        rw [← further]
        rcases above with above | rfl
        · exact read n p above
        · exact fun ends => none p (endsHere.mp ends)
      rw [found, further]
      dsimp only
      rw [code]
      rcases ih read' with ⟨n, p, first, found'⟩ | missing
      · rw [size, Nat.add_assoc, Nat.add_comm 1] at first
        refine .inl ⟨n + 1, p, first, found'.trans ?_⟩
        simp
        omega
      · exact .inr missing

end

def readFrom (lines : List (List Char)) (k : Int) (c : Nat) : List (List Char) :=
  match ahead k lines with
  | [] => []
  | first :: rest => first.drop c :: rest

section
variable (lines : List (List Char)) (k : Int) (c : Nat)

theorem endReads : statementEndInLines? lines k c =
    if k < -(lines.length : Int) then none else some (endInLines {} {} k c (readFrom lines k c)) := by
  rw [statementEndInLines?, aheadOnward, readFrom]
  cases ahead k lines with
  | nil => rfl
  | cons first rest => simp only [Edit.onwardNat]

theorem endFinds (known : -(lines.length : Int) ≤ k) :
    (∃ n p : Nat, FirstEnd (marked {} (readFrom lines k c)) n p ∧
        statementEndInLines? lines k c = some (some (k + n, (if n = 0 then (c : Int) else 0) + p + 1))) ∨
      (∀ n p, ¬ EndsAt (marked {} (readFrom lines k c)) n p) ∧ statementEndInLines? lines k c = some none := by
  rw [endReads, if_neg (by omega)]
  have start : ∀ n p, n < ([] : List (List (Char × CharClass))).length →
      ¬ EndsAt ([] ++ marked {} (readFrom lines k c)) n p := fun n p outside => absurd outside (Nat.not_lt_zero n)
  rcases linesFind start with ⟨n, p, first, found⟩ | ⟨none, found⟩
  · rw [List.length_nil, Nat.zero_add] at first
    exact .inl ⟨n, p, first, congrArg some found⟩
  · exact .inr ⟨none, congrArg some found⟩

end

theorem oneLineFinds (line : List Char) (c : Nat) :
    ((∃ p, EndsAt (marked {} [line.drop c]) 0 p) ∧
        statementEndInLines? [line] 0 c = some (some (0, (statementEnd line c : Int)))) ∨
      (∀ p, ¬ EndsAt (marked {} [line.drop c]) 0 p) ∧ statementEndInLines? [line] 0 c = some none ∧
        statementEnd line c = line.length := by
  have ends {p : Nat} : EndsAt (marked {} [line.drop c]) 0 p ↔ RowEnds [] (rowOf {} (line.drop c)) p :=
    @endsHere [] [] (rowOf {} (line.drop c)) p
  have reads : readFrom [line] 0 c = [line.drop c] := rfl
  have row := rowFinds [] (line.drop c) {}
  have closed : Brackets.behind {} [] = {} := rfl
  rw [endReads, if_neg (by simp), statementEnd, reads, endInLines]
  rw [closed] at row
  rcases row with ⟨p, here, -, found⟩ | ⟨none, found⟩
  · rw [found]
    exact .inl ⟨⟨p, ends.mpr here⟩, rfl⟩
  · rw [found]
    exact .inr ⟨fun p here => none p (ends.mp here), rfl, rfl⟩

theorem statementEndFirst (lines : List (List Char)) (k : Int) (c : Nat) :
    (∀ l o, statementEndInLines? lines k c = some (some (l, o)) ↔ -(lines.length : Int) ≤ k ∧
        ∃ n p : Nat, FirstEnd (marked {} (readFrom lines k c)) n p ∧ l = k + n ∧
          o = (if n = 0 then (c : Int) else 0) + p + 1) ∧
      (statementEndInLines? lines k c = some none ↔ -(lines.length : Int) ≤ k ∧
        ∀ n p, ¬ EndsAt (marked {} (readFrom lines k c)) n p) ∧
      ∀ line, (∀ e : Int, statementEndInLines? [line] 0 c = some (some (0, e)) ↔
          (∃ p, EndsAt (marked {} [line.drop c]) 0 p) ∧ e = statementEnd line c) ∧
        (statementEndInLines? [line] 0 c = some none → statementEnd line c = line.length) := by
  have known {found : Option (Int × Int)} (reads : statementEndInLines? lines k c = some found) :
      -(lines.length : Int) ≤ k := by
    by_contra unknown
    rw [endReads, if_pos (by omega)] at reads
    contradiction
  refine ⟨fun l o => ⟨fun reads => ⟨known reads, ?_⟩, ?_⟩, ⟨fun reads => ⟨known reads, ?_⟩, ?_⟩, fun line => ?_⟩
  · rcases endFinds lines k c (known reads) with ⟨n, p, first, found⟩ | ⟨-, found⟩
    · cases reads.symm.trans found
      exact ⟨n, p, first, rfl, rfl⟩
    · cases reads.symm.trans found
  · rintro ⟨inside, n, p, first, rfl, rfl⟩
    rcases endFinds lines k c inside with ⟨n', p', first', found⟩ | ⟨none, -⟩
    · obtain ⟨rfl, rfl⟩ := first.unique first'
      exact found
    · exact absurd first.ends (none n p)
  · rcases endFinds lines k c (known reads) with ⟨n, p, -, found⟩ | ⟨none, -⟩
    · cases reads.symm.trans found
    · exact none
  · rintro ⟨inside, none⟩
    rcases endFinds lines k c inside with ⟨n, p, first, -⟩ | ⟨-, found⟩
    · exact absurd first.ends (none n p)
    · exact found
  · rcases oneLineFinds line c with ⟨some, found⟩ | ⟨none, found, whole⟩
    · rw [found]
      refine ⟨fun e => ?_, by simp⟩
      simp [some, eq_comm]
    · rw [found]
      refine ⟨fun e => ?_, fun _ => whole⟩
      simp [none]

-- Semicolons in the string, in the brackets and in the comment do not count, nor does the closer without an opener.
example : statementEndInLines? ["f) g(';'".toList, "; /*".toList, "; */ h) ;".toList] 0 1 = some (some (2, 9)) := by
  decide

end DebugSweep.Lexis
