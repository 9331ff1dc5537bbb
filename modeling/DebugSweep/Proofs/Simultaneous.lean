import DebugSweep.Proofs.Emptying

/-! Cutting findings out one after the other and all at once. Main statement: findings that stand
apart in lines are all cleared, and what is left is the lines without the characters that some
finding covers, where a line that lost characters and shows nothing any more is dropped. -/
namespace DebugSweep.Clear
open Text

def covers (number column : Nat) (f : Finding) : Bool :=
  f.lineNumber == number && f.column ≤ column && column < f.column + f.content.toList.length

def without (gone : Nat → Bool) (column : Nat) : List Char → List Char
  | [] => []
  | c :: rest =>
      if gone column then without gone (column + 1) rest else c :: without gone (column + 1) rest

def coveredAt (findings : List Finding) (number column : Nat) : Bool :=
  findings.any (covers number column)

def leftOf (findings : List Finding) (number : Nat) (line : List Char) : List (List Char) :=
  if findings.any (fun f => f.lineNumber == number) then
    remains (without (coveredAt findings number) 0 line)
  else [line]

def leftBelow (findings : List Finding) (number : Nat) : List (List Char) → List (List Char)
  | [] => []
  | line :: rest => leftOf findings number line ++ leftBelow findings (number + 1) rest

def atOnce (findings : List Finding) (lines : List (List Char)) : List (List Char) :=
  leftBelow findings 1 lines

theorem withoutAppend (gone : Nat → Bool) (column : Nat) (left right : List Char) :
    without gone column (left ++ right) =
      without gone column left ++ without gone (column + left.length) right := by
  induction left generalizing column with
  | nil => rfl
  | cons c rest ih =>
    have next := ih (column + 1)
    rw [Nat.add_right_comm] at next
    simp only [List.cons_append, without, next, List.length_cons, ← Nat.add_assoc]
    split <;> rfl

theorem withoutSame {gone gone' : Nat → Bool} {column : Nat} {text : List Char}
    (same : ∀ i, column ≤ i → i < column + text.length → gone i = gone' i) :
    without gone column text = without gone' column text := by
  induction text generalizing column with
  | nil => rfl
  | cons c rest ih =>
    rw [List.length_cons] at same
    have later := @ih (column + 1) (fun i first last => same i (by omega) (by omega))
    rw [without, without, later, same column (Nat.le_refl _) (by omega)]

theorem withoutNone (column : Nat) (text : List Char) : without (fun _ => false) column text = text := by
  induction text generalizing column with
  | nil => rfl
  | cons c rest ih => simp [without, ih]

theorem withoutAll (column : Nat) (text : List Char) : without (fun _ => true) column text = [] := by
  induction text generalizing column with
  | nil => rfl
  | cons c rest ih => simp [without, ih]

theorem leftBelowAppend (findings : List Finding) (number : Nat) (above below : List (List Char)) :
    leftBelow findings number (above ++ below) =
      leftBelow findings number above ++ leftBelow findings (number + above.length) below := by
  induction above generalizing number with
  | nil => rfl
  | cons line rest ih =>
    have next := ih (number + 1)
    rw [Nat.add_right_comm] at next
    simp only [List.cons_append, leftBelow, next, List.length_cons, List.append_assoc, ← Nat.add_assoc]

theorem leftOfSame {findings findings' : List Finding} {number : Nat} (line : List Char)
    (same : ∀ f : Finding, f.lineNumber = number → (f ∈ findings ↔ f ∈ findings')) :
    leftOf findings number line = leftOf findings' number line := by
  have any (test : Finding → Bool) (here : ∀ f, test f = true → f.lineNumber = number) :
      findings.any test = findings'.any test := by
    rw [Bool.eq_iff_iff, List.any_eq_true, List.any_eq_true]
    constructor
    · rintro ⟨f, member, holds⟩
      exact ⟨f, (same f (here f holds)).mp member, holds⟩
    · rintro ⟨f, member, holds⟩
      exact ⟨f, (same f (here f holds)).mpr member, holds⟩
  have covered : coveredAt findings number = coveredAt findings' number := by
    funext column
    apply any
    intro f holds
    simp only [covers, Bool.and_eq_true, beq_iff_eq] at holds
    exact holds.1.1
  rw [leftOf, leftOf, covered, any _ (fun f holds => beq_iff_eq.mp holds)]

theorem leftBelowSame {findings findings' : List Finding} {number : Nat} {below : List (List Char)}
    (same : ∀ f : Finding, (number : Int) ≤ f.lineNumber → f.lineNumber < number + below.length →
      (f ∈ findings ↔ f ∈ findings')) :
    leftBelow findings number below = leftBelow findings' number below := by
  induction below generalizing number with
  | nil => rfl
  | cons line rest ih =>
    rw [List.length_cons] at same
    rw [leftBelow, leftBelow, leftOfSame line (fun f here => same f (by omega) (by omega)),
      ih (fun f first last => same f (by omega) (by omega))]

theorem leftBelowNone (number : Nat) (lines : List (List Char)) : leftBelow [] number lines = lines := by
  induction lines generalizing number with
  | nil => rfl
  | cons line rest ih => simp [leftBelow, leftOf, ih]

theorem leftAbove {findings : List Finding} {above : List (List Char)}
    (below : ∀ f ∈ findings, (above.length : Int) < f.lineNumber) : leftBelow findings 1 above = above := by
  refine (leftBelowSame ?_).trans (leftBelowNone 1 above)
  intro f first last
  refine ⟨fun member => ?_, fun member => by simp at member⟩
  have := below f member
  omega

theorem atOnceSame {findings findings' : List Finding} (lines : List (List Char))
    (same : ∀ f, f ∈ findings ↔ f ∈ findings') : atOnce findings lines = atOnce findings' lines :=
  leftBelowSame (fun f _ _ => same f)

theorem leftOfShown {findings : List Finding} {number : Nat} {line left : List Char}
    (cut : without (coveredAt findings number) 0 line = left) (shown : allBlank left = false) :
    leftOf findings number line = [left] := by
  unfold leftOf
  split
  · rw [cut, remainsVisible shown]
  · rename_i untouched
    have none : ∀ i, coveredAt findings number i = false := by
      intro i
      apply List.any_eq_false.mpr
      intro f member holds
      simp only [covers, Bool.and_eq_true] at holds
      exact untouched (List.any_eq_true.mpr ⟨f, member, holds.1.1⟩)
    rw [← cut, withoutSame (fun i _ _ => none i), withoutNone]

section
variable {lines : List (List Char)} {g : Finding} {done : List Finding}

theorem uncoveredBefore {number i : Nat} (behind : ∀ f ∈ done, Before g f) (here : g.lineNumber = number)
    (early : (i : Int) < g.column + g.content.toList.length) : coveredAt done number i = false := by
  apply List.any_eq_false.mpr
  intro f member holds
  have order := behind f member
  simp only [covers, Bool.and_eq_true, beq_iff_eq, decide_eq_true_eq] at holds
  unfold Before at order
  omega

theorem leftHere {number : Nat} {before after : List Char} (behind : ∀ f ∈ done, Before g f)
    (here : g.lineNumber = number) (column : g.column = before.length)
    (visible : allBlank g.content.toList = false) :
    ∃ rest, leftOf done number (before ++ g.content.toList ++ after) = [before ++ g.content.toList ++ rest] ∧
      leftOf (g :: done) number (before ++ g.content.toList ++ after) = remains (before ++ rest) := by
  let rest := without (coveredAt done number) (before ++ g.content.toList).length after
  have early : without (coveredAt done number) 0 (before ++ g.content.toList) = before ++ g.content.toList := by
    refine (withoutSame fun i _ last => ?_).trans (withoutNone 0 _)
    rw [List.length_append] at last
    exact uncoveredBefore behind here (by omega)
  have front : without (coveredAt (g :: done) number) 0 before = before := by
    refine (withoutSame fun i _ last => ?_).trans (withoutNone 0 _)
    rw [coveredAt, List.any_cons, ← coveredAt, uncoveredBefore behind here (by omega), Bool.or_false]
    simp only [covers, here, column, Bool.and_eq_false_iff, decide_eq_false_iff_not]
    omega
  have own : without (coveredAt (g :: done) number) before.length g.content.toList = [] := by
    refine (withoutSame fun i first last => ?_).trans (withoutAll before.length _)
    rw [coveredAt, List.any_cons, Bool.or_eq_true]
    left
    simp only [covers, here, column, beq_self_eq_true, Bool.true_and, Bool.and_eq_true, decide_eq_true_eq]
    omega
  have back : without (coveredAt (g :: done) number) (before ++ g.content.toList).length after = rest := by
    refine withoutSame fun i first last => ?_
    rw [List.length_append] at first
    have missed : covers number i g = false := by
      simp only [covers, here, column, Bool.and_eq_false_iff, decide_eq_false_iff_not]
      omega
    rw [coveredAt, List.any_cons, missed, Bool.false_or, coveredAt]
  refine ⟨rest, ?_, ?_⟩
  · apply leftOfShown
    · rw [withoutAppend, early, Nat.zero_add]
    · rw [blankAppend, blankAppend, visible, Bool.and_false, Bool.false_and]
  · have touched : (g :: done).any (fun f => f.lineNumber == number) = true := by simp [here]
    rw [leftOf, if_pos touched, withoutAppend, withoutAppend, front, Nat.zero_add, own, Nat.zero_add, back,
      List.append_nil]

-- The next finding to cut still stands at its place, and its cut leaves what cutting it together with
-- those behind it leaves.
theorem atOnceNext (stands : Stands lines g) (behind : ∀ f ∈ done, Before g f) (cleared stale : Nat) :
    Cut.remove ⟨atOnce done lines, cleared, stale⟩ g = ⟨atOnce (g :: done) lines, cleared + 1, stale⟩ := by
  obtain ⟨above, before, after, below, rfl, number, column, visible⟩ := stands
  have late : ∀ f ∈ done, (above.length : Int) < f.lineNumber := by
    intro f member
    have order := behind f member
    unfold Before at order
    omega
  have down : leftBelow (g :: done) (1 + above.length + 1) below =
      leftBelow done (1 + above.length + 1) below := by
    apply leftBelowSame
    intro f first last
    refine ⟨fun member => ?_, List.mem_cons_of_mem _⟩
    rcases List.mem_cons.mp member with rfl | member
    · omega
    · exact member
  obtain ⟨rest, kept, cut⟩ := @leftHere g done (1 + above.length) before after behind (by omega) column visible
  have parts : atOnce done (above ++ (before ++ g.content.toList ++ after) :: below) =
      above ++ (before ++ g.content.toList ++ rest) :: leftBelow done (1 + above.length + 1) below := by
    rw [atOnce, leftBelowAppend, leftAbove late, leftBelow, kept, List.singleton_append]
  have both : atOnce (g :: done) (above ++ (before ++ g.content.toList ++ after) :: below) =
      above ++ remains (before ++ rest) ++ leftBelow done (1 + above.length + 1) below := by
    rw [atOnce, leftBelowAppend, leftAbove (List.forall_mem_cons.mpr ⟨by omega, late⟩), leftBelow, cut, down,
      List.append_assoc]
  rw [removeCleared parts number column, both]

-- The induction is on the findings in the order in which they are cut.
theorem foldAtOnce {findings : List Finding} {cleared stale : Nat} (stand : ∀ f ∈ findings, Stands lines f)
    (order : findings.Pairwise (fun a b => Before b a)) (behind : ∀ f ∈ findings, ∀ g ∈ done, Before f g) :
    findings.foldl Cut.remove ⟨atOnce done lines, cleared, stale⟩ =
      ⟨atOnce (findings.reverse ++ done) lines, cleared + findings.length, stale⟩ := by
  induction findings generalizing done cleared with
  | nil => rfl
  | cons f rest ih =>
    obtain ⟨first, order⟩ := List.pairwise_cons.mp order
    have next := atOnceNext (stand f List.mem_cons_self) (behind f List.mem_cons_self) cleared stale
    rw [List.foldl_cons, next, ih (fun g member => stand g (List.mem_cons_of_mem _ member)) order]
    · simp only [List.reverse_cons, List.append_assoc, List.singleton_append, List.length_cons,
        Nat.add_assoc, Nat.add_comm 1]
    · intro g member h given
      rcases List.mem_cons.mp given with rfl | given
      · exact first g member
      · exact behind g (List.mem_cons_of_mem _ member) h given

theorem cutsBackward {findings : List Finding} (stand : ∀ f ∈ findings, Stands lines f)
    (apart : findings.Pairwise Apart) :
    (findings.mergeSort notBefore).Pairwise (fun a b => Before b a) := by
  have perm := List.mergeSort_perm findings notBefore
  have pairwise := (perm.pairwise_iff Apart.symm).mpr apart
  refine ((cutOrder findings).and pairwise).imp_of_mem ?_
  intro a b left right both
  obtain ⟨order, between⟩ := both
  have := standsNotEmpty (stand a (perm.mem_iff.mp left))
  unfold Apart Before at between
  unfold Before
  omega

theorem fromLinesAtOnce {findings : List Finding} (stand : ∀ f ∈ findings, Stands lines f)
    (apart : findings.Pairwise Apart) :
    fromLines lines findings = ⟨atOnce findings lines, findings.length, 0⟩ := by
  have perm := List.mergeSort_perm findings notBefore
  have stand' : ∀ f ∈ findings.mergeSort notBefore, Stands lines f :=
    fun f member => stand f (perm.mem_iff.mp member)
  have order := cutsBackward stand apart
  have none : atOnce [] lines = lines := leftBelowNone 1 lines
  have folded := @foldAtOnce lines [] (findings.mergeSort notBefore) 0 0 stand' order (by simp)
  rw [none, List.append_nil, Nat.zero_add, perm.length_eq] at folded
  have same : atOnce (findings.mergeSort notBefore).reverse lines = atOnce findings lines :=
    atOnceSame lines (fun f => by rw [List.mem_reverse, perm.mem_iff])
  rw [fromLines, folded, same]

end

theorem clearedAtOnce {lines : List (List Char)} {findings : List Finding}
    (stand : ∀ f ∈ findings, Stands lines f) (apart : findings.Pairwise Apart) :
    (fromLines lines findings).cleared = findings.length ∧ (fromLines lines findings).stale = 0 ∧
      (fromLines lines findings).lines = atOnce findings lines ∧
      ∀ order, order.Perm findings → fromLines lines order = fromLines lines findings := by
  have given := fromLinesAtOnce stand apart
  refine ⟨by rw [given], by rw [given], by rw [given], ?_⟩
  intro order perm
  rw [given, fromLinesAtOnce (fun f member => stand f (perm.mem_iff.mp member))
    ((perm.pairwise_iff Apart.symm).mpr apart), atOnceSame lines (fun f => perm.mem_iff), perm.length_eq]

def dumpAt (lineNumber column : Int) (content : String) : Finding :=
  { id := "", filePath := "/w/a.php", relativePath := "a.php", lineNumber, column, content
    context := content, kind := .dd, severity := .error }

theorem threeDumpsAtOnce :
    let lines := ["  dd(1); $x = 2; dd($x);", "dd(3);", "", "keep"].map String.toList
    let findings := [dumpAt 2 0 "dd(3);", dumpAt 1 2 "dd(1);", dumpAt 1 17 "dd($x);"]
    (fromLines lines findings).cleared = 3 ∧ (fromLines lines findings).stale = 0 ∧
      atOnce findings lines = ["   $x = 2; ", "", "keep"].map String.toList ∧
      (fromLines lines findings).lines = atOnce findings lines ∧
      fromLines lines findings.reverse = fromLines lines findings := by
  intro lines findings
  have stand : ∀ f ∈ findings, Stands lines f := by decide +kernel
  have apart : findings.Pairwise Apart := by decide +kernel
  obtain ⟨cleared, stale, left, anyOrder⟩ := clearedAtOnce stand apart
  exact ⟨cleared, stale, by decide +kernel, left, anyOrder _ findings.reverse_perm⟩

end DebugSweep.Clear
