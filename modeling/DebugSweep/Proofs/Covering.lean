import DebugSweep.Glob
import DebugSweep.Proofs.Places

/-! Patterns made from paths. Main statement: without backslashes, the pattern made to exclude a place
excludes the file at it, or the files below it, whatever marks of patterns stand in their names. -/
namespace DebugSweep

theorem sameLetterRefl (c : Char) : Text.sameLetter c c = true := by
  unfold Text.sameLetter
  split <;> simp

namespace Glob
variable {allowed : Char → Bool} {next : List Char → Bool}

theorem afterRunNow {text : List Char} (here : next text = true) : afterRun allowed next text = true := by
  cases text with
  | nil => exact here
  | cons c rest => simp [afterRun, here]

theorem afterRunSkips (run : List Char) {text : List Char} (free : ∀ c ∈ run, allowed c = true)
    (here : next text = true) : afterRun allowed next (run ++ text) = true := by
  induction run with
  | nil => exact afterRunNow here
  | cons c run ih =>
    have later := ih (fun d member => free d (List.mem_cons_of_mem _ member))
    simp [afterRun, free c List.mem_cons_self, later]

theorem coversItself (path : List Char) {more : List Piece} {text : List Char} (rest : covers more text = true) :
    covers (pieces path ++ more) (path ++ text) = true := by
  induction path using pieces.induct with
  | case1 => exact rest
  | case2 path ih => exact afterRunSkips ['*', '*'] (by simp) ih
  | case3 c path _ ih =>
    rw [pieces]
    · split
      · rename_i star
        obtain rfl : c = '*' := by simpa using star
        exact afterRunSkips ['*'] (by simp) ih
      · split
        · rename_i mark
          obtain rfl : c = '?' := by simpa using mark
          exact ih
        · simp [covers, sameLetterRefl, ih]
    · assumption

theorem piecesSlash (path more : List Char) :
    pieces (path ++ '/' :: more) = pieces path ++ .letter '/' :: pieces more := by
  induction path using pieces.induct with
  | case1 => simp [pieces]
  | case2 path ih => simp [pieces, ih]
  | case3 c path single ih =>
    have apart : ∀ rest, c = '*' → path ++ '/' :: more = '*' :: rest → False := by
      intro rest star same
      cases path with
      | nil => simp at same
      | cons d path =>
        obtain ⟨rfl, -⟩ := List.cons.inj same
        exact single path star rfl
    rw [List.cons_append, pieces, pieces, ih, List.cons_append]
    · assumption
    · exact apart

theorem coversBelow {path rest : List Char} (plain : '\n' ∉ rest) :
    covers (pieces (path ++ ['/', '*', '*'])) (path ++ '/' :: rest) = true := by
  rw [piecesSlash]
  apply coversItself
  have run : afterRun (· != '\n') (covers []) (rest ++ []) = true :=
    afterRunSkips rest (fun c member => by
      have other : c ≠ '\n' := fun same => plain (same ▸ member)
      simpa using other) rfl
  simpa [covers, pieces, sameLetterRefl] using run

end Glob

namespace Path

theorem forwardAlready {s : String} (plain : '\\' ∉ s.toList) : forwardSlashes s = s := by
  have same : s.toList.map (fun c => if c == '\\' then '/' else c) = s.toList := by
    refine (List.map_congr_left fun c member => ?_).trans (List.map_id _)
    have other : c ≠ '\\' := fun same => plain (same ▸ member)
    simp [other]
  rw [forwardSlashes, same, String.ofList_toList]

theorem belowNames {root place : AbsPath} {names : List String} :
    root.below? place = some names ↔ place.names = root.names ++ names := by
  unfold AbsPath.below?
  constructor
  · intro below
    split at below
    · rename_i along
      obtain ⟨rest, whole⟩ := List.isPrefixOf_iff_prefix.mp along
      rw [← whole, List.drop_left] at below
      rw [← whole, Option.some.inj below]
    · contradiction
  · intro whole
    rw [whole, if_pos (List.isPrefixOf_iff_prefix.mpr (List.prefix_append _ _)), List.drop_left]

/-- What a pattern made from a place is to exclude: the file there, or all below that has its names on
one line. -/
def Covered (place : AbsPath) (isDir : Bool) (file : AbsPath) : Prop :=
  match isDir with
  | true => ∃ names : List String,
      names ≠ [] ∧ file.names = place.names ++ names ∧ ∀ name ∈ names, '\n' ∉ name.toList
  | false => file = place

variable {roots : List AbsPath} {place file : AbsPath} {isDir : Bool} {pattern : String}

theorem namesChars {names : List String} (some : names ≠ []) :
    (namesText names).toList = List.intercalate ['/'] (names.map String.toList) := by
  rw [namesText, if_neg (by simpa using some), String.toList_intercalate]
  rfl

theorem intercalateAppend {left right : List (List Char)} (first : left ≠ []) (second : right ≠ []) :
    List.intercalate ['/'] (left ++ right) =
      List.intercalate ['/'] left ++ '/' :: List.intercalate ['/'] right := by
  induction left with
  | nil => contradiction
  | cons name left ih =>
    cases left with
    | nil =>
      obtain ⟨next, more, rfl⟩ := List.exists_cons_of_ne_nil second
      simp
    | cons other left => simp_all

theorem intercalateFree {names : List (List Char)} (free : ∀ name ∈ names, '\n' ∉ name) :
    '\n' ∉ List.intercalate ['/'] names := by
  induction names with
  | nil => simp
  | cons name names ih =>
    obtain ⟨here, later⟩ := List.forall_mem_cons.mp free
    cases names with
    | nil => simpa using here
    | cons next more => simpa [here] using ih later

theorem patternCovers (made : excludePattern roots place isDir = some pattern)
    (covered : Covered place isDir file) : ∃ root ∈ roots, ∃ names, root.below? file = some names ∧
      Glob.covers (Glob.pieces pattern.toList) (namesText names).toList = true := by
  obtain ⟨root, member, named⟩ := List.exists_of_findSome?_eq_some made
  split at named
  · rename_i name names below
    cases named
    have whole := belowNames.mp below
    rw [String.toList_append, namesChars (by simp)]
    cases isDir with
    | false =>
      obtain rfl : file = place := covered
      refine ⟨root, member, _, below, ?_⟩
      rw [namesChars (by simp)]
      have whole : Glob.covers [] [] = true := rfl
      simpa using Glob.coversItself (List.intercalate ['/'] ((name :: names).map String.toList)) whole
    | true =>
      obtain ⟨rest, some, deeper, free⟩ := covered
      refine ⟨root, member, name :: names ++ rest, belowNames.mpr (by rw [deeper, whole, List.append_assoc]), ?_⟩
      rw [namesChars (by simp), List.map_append, intercalateAppend (by simp) (by simpa using some)]
      apply Glob.coversBelow
      apply intercalateFree
      intro chars inside
      obtain ⟨name', given, rfl⟩ := List.mem_map.mp inside
      exact free name' given
  · contradiction

end Path

namespace Glob
open DebugSweep.Path

theorem placeExcluded {roots : List AbsPath} {place file here : AbsPath} {isDir : Bool} {pattern : String}
    {globs : List String} (made : excludePattern roots place isDir = some pattern)
    (plain : '\\' ∉ pattern.toList) (visible : Text.allBlank pattern.toList = false)
    (covered : Covered place isDir file) (proper : file.Proper) (known : ∀ root ∈ roots, root.Proper)
    (listed : pattern ∈ globs) :
    excluded here (rules globs) (roots.map AbsPath.text) file.text false = true := by
  obtain ⟨root, member, names, below, covers⟩ := patternCovers made covered
  have relative : relativeText? here file.text root.text = some (namesText names) := by
    simp [relativeText?, proper.resolved, (known root member).resolved, relative?, below]
  refine List.any_eq_true.mpr ⟨Rule.ofPattern pattern, ?_, List.any_eq_true.mpr ⟨namesText names, ?_, ?_⟩⟩
  · exact List.mem_map_of_mem (List.mem_filter.mpr ⟨listed, by simp [visible]⟩)
  · refine List.mem_cons_of_mem _ (List.mem_flatMap.mpr ⟨root.text, List.mem_map_of_mem member, ?_⟩)
    simp [relative]
  · rw [Rule.matches, Rule.ofPattern, forwardAlready plain]
    exact covers

end Glob
end DebugSweep
