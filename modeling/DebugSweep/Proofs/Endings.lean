import DebugSweep.Proofs.Cutting
import DebugSweep.Proofs.Location
import Mathlib.Data.List.DropRight

/-! Endings of lines. Main statement: a text whose carriage returns stand at the ends of lines only has
the same findings with plain endings. -/
namespace DebugSweep.Text
open Lexis

theorem dropEndLast (c : Char) (text : List Char) : (dropEnd c text).getLast? ≠ some c := by
  intro last
  rw [dropEnd, List.getLast?_reverse] at last
  have other := List.head?_dropWhile_not (· == c) text.reverse
  rw [last] at other
  simp at other

theorem dropEndBehind {front returns : List Char} (only : ∀ c ∈ returns, c = '\r') :
    dropEnd '\r' (front ++ returns) = dropEnd '\r' front := by
  have passed : (front ++ returns).reverse.dropWhile (· == '\r') = front.reverse.dropWhile (· == '\r') := by
    rw [List.reverse_append]
    exact List.dropWhile_append_of_pos (by simpa using only)
  rw [dropEnd, passed]
  rfl

theorem dropEndPlain {front returns : List Char} (plain : '\r' ∉ front) (only : ∀ c ∈ returns, c = '\r') :
    dropEnd '\r' (front ++ returns) = front := by
  have stays : front.reverse.dropWhile (· == '\r') = front.reverse := by
    cases turned : front.reverse with
    | nil => rfl
    | cons c rest =>
      have other : c ≠ '\r' := by
        rintro rfl
        exact plain (List.mem_reverse.mp (turned ▸ List.mem_cons_self))
      exact List.dropWhile_cons_of_neg (by simpa using other)
  rw [dropEndBehind only, dropEnd, stays, List.reverse_reverse]

theorem returnsBehind (raw : List Char) : dropEnd '\r' raw ++ raw.drop (dropEnd '\r' raw).length = raw ∧
    ∀ c ∈ raw.drop (dropEnd '\r' raw).length, c = '\r' := by
  obtain ⟨returns, split, only⟩ := dropEndSplit '\r' raw
  have same : raw.drop (dropEnd '\r' raw).length = returns := by
    have dropped := congrArg (List.drop (dropEnd '\r' raw).length) split
    rwa [List.drop_left] at dropped
  rw [same]
  exact ⟨split.symm, only⟩

def ReturnsLast (raws : List (List Char)) : Prop := ∀ raw ∈ raws, '\r' ∉ raw.dropLast

instance (raws : List (List Char)) : Decidable (ReturnsLast raws) :=
  inferInstanceAs (Decidable (∀ raw ∈ raws, _))

theorem returnsOnce {line returns : List Char} (last : '\r' ∉ (line ++ returns).dropLast)
    (edge : line.getLast? ≠ some '\r') (only : ∀ c ∈ returns, c = '\r') :
    '\r' ∉ line ∧ (returns = [] ∨ returns = ['\r']) := by
  cases returns with
  | nil =>
    refine ⟨?_, .inl rfl⟩
    rw [List.append_nil] at last
    intro inside
    rcases List.eq_nil_or_concat' line with rfl | ⟨front, d, rfl⟩
    · exact absurd inside List.not_mem_nil
    · rw [List.dropLast_concat] at last
      rcases List.mem_append.mp inside with early | here
      · exact last early
      · obtain rfl : '\r' = d := by simpa using here
        exact edge (by simp)
  | cons c more =>
    rw [List.dropLast_append_of_ne_nil (by simp)] at last
    refine ⟨fun inside => last (List.mem_append_left _ inside), .inr ?_⟩
    obtain rfl := only c List.mem_cons_self
    cases more with
    | nil => rfl
    | cons d more => exact absurd (List.mem_append_right line (by simp)) last

theorem lastReturns {raw : List Char} (last : '\r' ∉ raw.dropLast) : '\r' ∉ dropEnd '\r' raw ∧
    (raw.drop (dropEnd '\r' raw).length = [] ∨ raw.drop (dropEnd '\r' raw).length = ['\r']) := by
  obtain ⟨whole, only⟩ := returnsBehind raw
  exact returnsOnce (by rwa [whole]) (dropEndLast '\r' raw) only

theorem lastParts {raw : List Char} (last : '\r' ∉ raw.dropLast) :
    raw = dropEnd '\r' raw ∨ raw = dropEnd '\r' raw ++ ['\r'] := by
  have whole := (returnsBehind raw).1
  rcases (lastReturns last).2 with none | one
  · rw [none, List.append_nil] at whole
    exact .inl whole.symm
  · rw [one] at whole
    exact .inr whole.symm

theorem endingsDone (done text : List Char) (after : Bool) :
    plainEndings done after text = done.reverse ++ plainEndings [] after text := by
  induction text generalizing done after with
  | nil => simp [plainEndings]
  | cons c rest ih =>
    rw [plainEndings, plainEndings]
    split
    · rw [ih ('\n' :: done), ih ['\n']]
      simp
    · split
      · exact ih done false
      · rw [ih (c :: done), ih [c]]
        simp

theorem normalizePlain {line : List Char} (plain : '\r' ∉ line) (rest : List Char) :
    normalizeEndings (line ++ rest) = line ++ normalizeEndings rest := by
  induction line with
  | nil => rfl
  | cons c line ih =>
    have other : c ≠ '\r' := fun same => plain (same ▸ List.mem_cons_self)
    have next := ih (fun member => plain (List.mem_cons_of_mem _ member))
    have step : normalizeEndings (c :: (line ++ rest)) = plainEndings [c] false (line ++ rest) := by
      simp [normalizeEndings, plainEndings, other]
    rw [List.cons_append, step, endingsDone]
    exact congrArg (c :: ·) next

theorem normalizeLine {raw : List Char} (last : '\r' ∉ raw.dropLast) (rest : List Char) :
    normalizeEndings (raw ++ '\n' :: rest) = dropEnd '\r' raw ++ '\n' :: normalizeEndings rest := by
  have feed : plainEndings ['\n'] false rest = '\n' :: normalizeEndings rest := endingsDone ['\n'] rest false
  have plain := (lastReturns last).1
  have parts := lastParts last
  generalize dropEnd '\r' raw = line at plain parts
  rcases parts with rfl | rfl
  · rw [normalizePlain plain]
    exact congrArg (raw ++ ·) feed
  · rw [List.append_assoc, normalizePlain plain]
    exact congrArg (line ++ ·) feed

theorem normalizeLast {raw : List Char} (last : '\r' ∉ raw.dropLast) :
    normalizeEndings raw = dropEnd '\r' raw ∨ normalizeEndings raw = dropEnd '\r' raw ++ ['\n'] := by
  have plain := (lastReturns last).1
  have parts := lastParts last
  generalize dropEnd '\r' raw = line at plain parts
  rcases parts with rfl | rfl
  · have whole := normalizePlain plain []
    rw [List.append_nil] at whole
    exact .inl (whole.trans (List.append_nil _))
  · exact .inr (normalizePlain plain ['\r'])

theorem unlinesOne (line : List Char) : unlines [line] = line := by simp [unlines]

theorem unlinesCons (line next : List Char) (rest : List (List Char)) :
    unlines (line :: next :: rest) = line ++ '\n' :: unlines (next :: rest) := by
  simp [unlines, List.intercalate, List.intersperse]

-- A carriage return at the very end becomes the end of one more line, which is empty.
theorem normalizeUnlines {raw : List Char} {rest : List (List Char)} (last : ReturnsLast (raw :: rest)) :
    ∃ extra, (extra = [] ∨ extra = [[]]) ∧
      normalizeEndings (unlines (raw :: rest)) = unlines ((raw :: rest).map (dropEnd '\r') ++ extra) := by
  induction rest generalizing raw with
  | nil =>
    rw [unlinesOne]
    rcases normalizeLast (last raw List.mem_cons_self) with same | same
    · exact ⟨[], .inl rfl, by rw [same]; exact (unlinesOne _).symm⟩
    · refine ⟨[[]], .inr rfl, ?_⟩
      rw [same, List.map_singleton, List.singleton_append, unlinesCons, unlinesOne]
  | cons next rest ih =>
    obtain ⟨extra, few, same⟩ := ih (fun raw' member => last raw' (List.mem_cons_of_mem _ member))
    refine ⟨extra, few, ?_⟩
    rw [unlinesCons, normalizeLine (last raw List.mem_cons_self), same]
    simp only [List.map_cons, List.cons_append, unlinesCons]

end DebugSweep.Text

namespace DebugSweep.Scan
open Lexis Text

theorem rowsPlain (raws : List (List Char)) (number : Nat) (state : LineState) :
    rowsFrom number state (raws.map (dropEnd '\r')) = rowsFrom number state raws := by
  induction raws generalizing number state with
  | nil => rfl
  | cons raw rest ih =>
    have again : dropEnd '\r' (dropEnd '\r' raw) = dropEnd '\r' raw := List.rdropWhile_idempotent _ raw
    rw [List.map_cons, rowsFrom, rowsFrom, again, ih]

theorem rowsExtra (origin : Origin) (raws : List (List Char)) (number : Nat) (state : LineState) :
    (rowsFrom number state (raws ++ [[]])).flatMap (Row.findings origin) =
      (rowsFrom number state raws).flatMap (Row.findings origin) := by
  induction raws generalizing number state with
  | nil => rfl
  | cons raw rest ih => simp only [List.cons_append, rowsFrom, List.flatMap_cons, ih]

theorem normalizedFindings {source : List Char} (origin : Origin) (last : ReturnsLast (lines source)) :
    text origin (normalizeEndings source) = text origin source := by
  obtain ⟨raw, rest, parts⟩ : ∃ raw rest, lines source = raw :: rest :=
    List.exists_cons_of_ne_nil (Clear.linesHeld source)
  rw [textRows, textRows, rows, rows, ← Clear.unlinesLines source]
  rw [parts] at last ⊢
  obtain ⟨extra, few, same⟩ := normalizeUnlines last
  have closed : ∀ line ∈ raw :: rest, '\n' ∉ line := fun line member => Clear.lineClosed (parts ▸ member)
  have shorter : ∀ line ∈ (raw :: rest).map (dropEnd '\r') ++ extra, '\n' ∉ line := by
    intro line member feed
    rcases List.mem_append.mp member with inside | added
    · obtain ⟨line', known, rfl⟩ := List.mem_map.mp inside
      obtain ⟨front, -⟩ := returnsBehind line'
      exact closed line' known (front ▸ List.mem_append_left _ feed)
    · rcases few with rfl | rfl <;> simp_all
  rw [same, Clear.linesUnlines shorter, Clear.linesUnlines closed, if_neg (by simp), if_neg (by simp)]
  rcases few with rfl | rfl
  · rw [List.append_nil, rowsPlain]
  · rw [rowsExtra, rowsPlain]

end DebugSweep.Scan
