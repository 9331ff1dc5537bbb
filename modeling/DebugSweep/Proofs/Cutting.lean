import DebugSweep.Clear.Lines
import DebugSweep.Proofs.Pieces
import DebugSweep.Text.Lines
import Mathlib.Data.List.Basic

/-! What cutting a finding out of lines can do. Main statements: a cut either changes nothing or
shortens one line, which is dropped if nothing visible is left of it, and findings are cut in the
order of falling places. -/
namespace DebugSweep.Clear
open Text

theorem positionNat (length column : Nat) : position length column = min column length := by
  unfold position
  rw [if_neg (by omega)]
  rfl

theorem standsAtNat {part text : List Char} {column : Nat} :
    standsAt part column text = true ↔
      column ≤ text.length ∧ ∃ rest, text = text.take column ++ part ++ rest := by
  simp only [standsAt, onward, positionNat, Bool.and_eq_true, decide_eq_true_eq, Int.ofNat_le,
    List.isPrefixOf_iff_prefix]
  constructor
  · rintro ⟨inside, rest, same⟩
    rw [Nat.min_eq_left inside] at same
    exact ⟨inside, rest, by rw [List.append_assoc, same, List.take_append_drop]⟩
  · rintro ⟨inside, rest, same⟩
    refine ⟨inside, rest, ?_⟩
    have size : (text.take column).length = column := by simp [inside]
    rw [Nat.min_eq_left inside]
    conv_rhs => rw [same, List.append_assoc]
    rw [List.drop_left' size]

theorem cutLineNat (line : List Char) (column length : Nat) :
    cutLine line column length = line.take column ++ line.drop (column + length) := by
  have later : (column : Int) + length = ((column + length : Nat) : Int) := by simp
  simp only [cutLine, upTo, onward, later, positionNat]
  rw [← List.take_eq_take_min, ← List.drop_eq_drop_min]

theorem cutLineParts {before part after : List Char} :
    cutLine (before ++ part ++ after) before.length part.length = before ++ after := by
  rw [cutLineNat]
  simp

def remains (line : List Char) : List (List Char) := if allBlank line then [] else [line]

theorem removeAt {cut : Cut} {f : Finding} {above below : List (List Char)} {line : List Char}
    (parts : cut.lines = above ++ line :: below) (number : f.lineNumber = above.length + 1) :
    (cut.remove f).lines =
      if standsAt f.content.toList f.column line = true then
        above ++ remains (cutLine line f.column f.content.toList.length) ++ below
      else cut.lines := by
  have index : f.lineNumber - 1 = (above.length : Int) := by omega
  have found : cut.lines[above.length]? = some line := by simp [parts]
  simp only [Cut.remove, index, Int.toNat_natCast, found]
  rw [if_neg (by omega)]
  dsimp only
  split
  · dsimp only
    unfold remains
    split
    · simp [parts, List.eraseIdx_append_of_length_le]
    · simp [parts]
  · rfl

theorem removeOutside {cut : Cut} {f : Finding}
    (outside : ∀ n : Nat, f.lineNumber = n + 1 → cut.lines.length ≤ n) :
    (cut.remove f).lines = cut.lines := by
  simp only [Cut.remove]
  split
  · rfl
  · rename_i line found
    split at found
    · contradiction
    · have inside := (List.getElem?_eq_some_iff.mp found).1
      have := outside (f.lineNumber - 1).toNat (by omega)
      omega

theorem removeCases (cut : Cut) (f : Finding) :
    (cut.remove f).lines = cut.lines ∨
    ∃ above line below, cut.lines = above ++ line :: below ∧ f.lineNumber = above.length + 1 ∧
      standsAt f.content.toList f.column line = true ∧
      (cut.remove f).lines =
        above ++ remains (cutLine line f.column f.content.toList.length) ++ below := by
  by_cases inside : ∃ n : Nat, f.lineNumber = n + 1 ∧ n < cut.lines.length
  · obtain ⟨n, number, short⟩ := inside
    have size : (cut.lines.take n).length = n := by simp; omega
    have parts : cut.lines = cut.lines.take n ++ cut.lines[n] :: cut.lines.drop (n + 1) :=
      splitHere (List.getElem?_eq_getElem short)
    have result := removeAt parts (by rw [size]; exact number)
    split at result
    · rename_i stands
      exact Or.inr ⟨_, _, _, parts, by rw [size]; exact number, stands, result⟩
    · exact Or.inl result
  · exact Or.inl (removeOutside fun n number => Nat.le_of_not_lt fun short => inside ⟨n, number, short⟩)

theorem cutOrder (findings : List Finding) :
    (findings.mergeSort notBefore).Pairwise (fun a b => b.lineNumber < a.lineNumber ∨
      (b.lineNumber = a.lineNumber ∧ b.column ≤ a.column)) := by
  have sorted : (findings.mergeSort notBefore).Pairwise (fun a b => notBefore a b = true) := by
    apply List.pairwise_mergeSort
    · intro a b c left right
      simp only [notBefore, Bool.or_eq_true, Bool.and_eq_true, decide_eq_true_eq, beq_iff_eq] at *
      omega
    · intro a b
      simp only [notBefore, Bool.or_eq_true, Bool.and_eq_true, decide_eq_true_eq, beq_iff_eq]
      omega
  refine sorted.imp ?_
  intro a b order
  simpa [notBefore] using order

theorem lineClosed {source line : List Char} (member : line ∈ lines source) : '\n' ∉ line :=
  splitFree member

theorem linesHeld (source : List Char) : lines source ≠ [] := List.splitOn_ne_nil _ _

theorem unlinesLines (source : List Char) : unlines (lines source) = source := List.intercalate_splitOn _

-- A text without lines is read back as one empty line.
theorem linesUnlines {parts : List (List Char)} (closed : ∀ line ∈ parts, '\n' ∉ line) :
    lines (unlines parts) = if parts = [] then [[]] else parts := by
  split
  · rename_i empty
    subst empty
    rfl
  · rename_i some
    exact List.splitOn_intercalate _ closed some

theorem removeChars {cut : Cut} {f : Finding} {line : List Char} (member : line ∈ (cut.remove f).lines) :
    ∃ whole ∈ cut.lines, line ⊆ whole := by
  rcases removeCases cut f with same | ⟨above, whole, below, parts, _, _, result⟩
  · rw [same] at member
    exact ⟨line, member, List.Subset.refl _⟩
  · rw [result, List.append_assoc] at member
    rw [parts]
    rcases List.mem_append.mp member with early | member
    · exact ⟨line, by simp [early], List.Subset.refl _⟩
    rcases List.mem_append.mp member with here | late
    · refine ⟨whole, by simp, ?_⟩
      obtain rfl : line = cutLine whole f.column f.content.toList.length := by
        unfold remains at here
        split at here
        · simp at here
        · simpa using here
      apply List.append_subset_of_subset_of_subset
      · exact List.take_subset _ _
      · exact List.drop_subset _ _
    · exact ⟨line, by simp [late], List.Subset.refl _⟩

theorem foldClosed {findings : List Finding} {cut : Cut} (closed : ∀ line ∈ cut.lines, '\n' ∉ line) :
    ∀ line ∈ (findings.foldl Cut.remove cut).lines, '\n' ∉ line := by
  induction findings generalizing cut with
  | nil => exact closed
  | cons f rest ih =>
    apply ih
    intro line member feed
    obtain ⟨whole, inside, chars⟩ := removeChars member
    exact closed whole inside (chars feed)

theorem fromLinesClosed {parts : List (List Char)} (findings : List Finding)
    (closed : ∀ line ∈ parts, '\n' ∉ line) :
    ∀ line ∈ (fromLines parts findings).lines, '\n' ∉ line := foldClosed closed

end DebugSweep.Clear
