import DebugSweep.Proofs.Covering

/-! What patterns mean. Main statement: on one line, a pattern matches exactly the texts that can be split
along it from left to right, where letters that differ in case only are one letter. -/
namespace DebugSweep

namespace Text

def Variant (l m : Char) : Prop := m = l ∨ m ∈ variantsOf l

theorem variantRow {l m : Char} (variant : m ∈ variantsOf l) :
    ∃ row ∈ caseVariants, row.1 = l.toNat ∧ variantsOf l = row.2.map Char.ofNat := by
  unfold variantsOf at variant ⊢
  split at variant
  · rename_i row found
    exact ⟨row, List.mem_of_find?_eq_some found, by simpa using List.find?_some found, rfl⟩
  · contradiction

theorem rowsClosed : ∀ row ∈ caseVariants, ∀ n ∈ row.2, ∀ m ∈ row.1 :: row.2,
    m = n ∨ Char.ofNat m ∈ variantsOf (Char.ofNat n) := by decide +kernel

theorem Variant.through {l m k : Char} (first : Variant l m) (second : Variant l k) : Variant m k := by
  rcases first with rfl | first
  · exact second
  · obtain ⟨row, member, key, variants⟩ := variantRow first
    rw [variants] at first
    obtain ⟨n, listed, rfl⟩ := List.mem_map.mp first
    have given : ∃ j ∈ row.1 :: row.2, k = Char.ofNat j := by
      rcases second with rfl | second
      · exact ⟨row.1, List.mem_cons_self, by rw [key, Char.ofNat_toNat]⟩
      · rw [variants] at second
        obtain ⟨j, other, rfl⟩ := List.mem_map.mp second
        exact ⟨j, List.mem_cons_of_mem _ other, rfl⟩
    obtain ⟨j, other, rfl⟩ := given
    rcases rowsClosed row member n listed j other with rfl | variant
    · exact .inl rfl
    · exact .inr variant

theorem variantEquivalence : Equivalence Variant where
  refl _ := .inl rfl
  symm first := first.through (.inl rfl)
  trans first second := (first.through (.inl rfl)).through second

theorem lowerSmall : ∀ n < 0x80, (Char.ofNat n).toLower.toNat < 0x80 := by decide

theorem variantsLarge : ∀ row ∈ caseVariants, row.1 < 0x80 → ∀ n ∈ row.2, ¬ (Char.ofNat n).toNat < 0x80 := by
  decide +kernel

theorem sameLetterIff {a b : Char} : sameLetter a b = true ↔ Variant (lowerChar a) (lowerChar b) := by
  unfold sameLetter Variant
  split
  · rename_i small
    obtain ⟨first, second⟩ : a.toNat < 0x80 ∧ b.toNat < 0x80 := by simpa using small
    have lower (c : Char) (small : c.toNat < 0x80) : lowerChar c = c.toLower ∧ c.toLower.toNat < 0x80 := by
      refine ⟨if_pos small, ?_⟩
      rw [← Char.ofNat_toNat c]
      exact lowerSmall c.toNat small
    rw [(lower a first).1, (lower b second).1, beq_iff_eq, or_iff_left]
    -- Both are below U+0080, and no variant of a letter there is there too.
    intro variant
    obtain ⟨row, member, key, variants⟩ := variantRow variant
    rw [variants] at variant
    obtain ⟨n, listed, same⟩ := List.mem_map.mp variant
    exact variantsLarge row member (key ▸ (lower a first).2) n listed (same ▸ (lower b second).2)
  · simp

def letters : Setoid Char where
  r a b := sameLetter a b = true
  iseqv :=
    { refl := fun _ => sameLetterIff.mpr (variantEquivalence.refl _)
      symm := fun first => sameLetterIff.mpr (variantEquivalence.symm (sameLetterIff.mp first))
      trans := fun first second =>
        sameLetterIff.mpr (variantEquivalence.trans (sameLetterIff.mp first) (sameLetterIff.mp second)) }

theorem lettersIff {a b : Char} : letters.r a b ↔ sameLetter a b = true := Iff.rfl

end Text

namespace Glob
open Text

def slashed (c : Char) : Char := if c == '\\' then '/' else c

theorem slashedIs {c m : Char} (other : m ≠ '/') (plain : m ≠ '\\') : slashed c = m ↔ c = m := by
  unfold slashed
  split
  · rename_i back
    obtain rfl : c = '\\' := by simpa using back
    exact ⟨fun same => absurd same.symm other, fun same => absurd same.symm plain⟩
  · rfl

/-- The texts that can be split along a pattern: two stars cover any text, one star a text without a slash, a
question mark one character other than a slash, and any other character one of its letter. Two stars are taken
before one. -/
inductive Split : List Char → List Char → Prop
  | done : Split [] []
  | anything {pattern text : List Char} (run : List Char) (rest : Split pattern text) :
      Split ('*' :: '*' :: pattern) (run ++ text)
  | name {pattern text : List Char} {run : List Char} (single : pattern.head? ≠ some '*') (plain : '/' ∉ run)
      (rest : Split pattern text) : Split ('*' :: pattern) (run ++ text)
  | one {pattern text : List Char} {c : Char} (plain : c ≠ '/') (rest : Split pattern text) :
      Split ('?' :: pattern) (c :: text)
  | letter {pattern text : List Char} {p c : Char} (unstarred : p ≠ '*') (unmarked : p ≠ '?')
      (same : letters.r (slashed p) c) (rest : Split pattern text) :
      Split (p :: pattern) (c :: text)

section
variable {pattern text : List Char} {p : Char}

theorem splitDone : Split [] text ↔ text = [] := by
  constructor
  · rintro ⟨⟩
    rfl
  · rintro rfl
    exact .done

theorem splitAnything : Split ('*' :: '*' :: pattern) text ↔
    ∃ run rest, text = run ++ rest ∧ Split pattern rest := by
  constructor
  · intro split
    cases split with
    | anything run rest => exact ⟨run, _, rfl, rest⟩
    | name single => exact absurd rfl single
    | letter unstarred => exact absurd rfl unstarred
  · rintro ⟨run, rest, rfl, split⟩
    exact .anything run split

theorem splitName (single : pattern.head? ≠ some '*') :
    Split ('*' :: pattern) text ↔ ∃ run rest, text = run ++ rest ∧ '/' ∉ run ∧ Split pattern rest := by
  constructor
  · intro split
    cases split with
    | anything => exact absurd rfl single
    | name single plain rest => exact ⟨_, _, rfl, plain, rest⟩
    | letter unstarred => exact absurd rfl unstarred
  · rintro ⟨run, rest, rfl, plain, split⟩
    exact .name single plain split

theorem splitOne : Split ('?' :: pattern) text ↔ ∃ c rest, text = c :: rest ∧ c ≠ '/' ∧ Split pattern rest := by
  constructor
  · intro split
    cases split with
    | one plain rest => exact ⟨_, _, rfl, plain, rest⟩
    | letter _ unmarked => exact absurd rfl unmarked
  · rintro ⟨c, rest, rfl, plain, split⟩
    exact .one plain split

theorem splitLetter (unstarred : p ≠ '*') (unmarked : p ≠ '?') : Split (p :: pattern) text ↔
    ∃ c rest, text = c :: rest ∧ letters.r (slashed p) c ∧ Split pattern rest := by
  constructor
  · intro split
    cases split with
    | anything => exact absurd rfl unstarred
    | name => exact absurd rfl unstarred
    | one => exact absurd rfl unmarked
    | letter _ _ same rest => exact ⟨_, _, rfl, same, rest⟩
  · rintro ⟨c, rest, rfl, same, split⟩
    exact .letter unstarred unmarked same split

end

theorem freeIff {m : Char} {run : List Char} : (∀ c ∈ run, (c != m) = true) ↔ m ∉ run := by
  constructor
  · intro free member
    exact absurd (free m member) (by simp)
  · intro free c member
    have other : c ≠ m := fun same => free (same ▸ member)
    simpa using other

theorem afterRunIff {m : Char} {next : List Char → Bool} {text : List Char} : afterRun (· != m) next text = true ↔
    ∃ run rest, text = run ++ rest ∧ m ∉ run ∧ next rest = true := by
  constructor
  · intro found
    induction text with
    | nil => exact ⟨[], [], rfl, List.not_mem_nil, found⟩
    | cons c text ih =>
      rw [afterRun, Bool.or_eq_true, Bool.and_eq_true] at found
      rcases found with here | ⟨free, later⟩
      · exact ⟨[], c :: text, rfl, List.not_mem_nil, here⟩
      · obtain ⟨run, rest, rfl, others, last⟩ := ih later
        exact ⟨c :: run, rest, rfl, freeIff.mp (List.forall_mem_cons.mpr ⟨free, freeIff.mpr others⟩), last⟩
  · rintro ⟨run, rest, rfl, free, here⟩
    exact afterRunSkips run (freeIff.mpr free) here

section
variable {rest : List Piece} {text : List Char}

theorem coversOne : covers (.one :: rest) text = true ↔
    ∃ c later, text = c :: later ∧ c ≠ '/' ∧ covers rest later = true := by
  cases text <;> simp [covers]

theorem coversLetter {p : Char} : covers (.letter p :: rest) text = true ↔
    ∃ c later, text = c :: later ∧ letters.r p c ∧ covers rest later = true := by
  cases text <;> simp [covers, lettersIff]

end

theorem piecesCons {c : Char} {rest : List Char} (single : c = '*' → rest.head? ≠ some '*') :
    pieces (c :: rest) = (if c == '*' then .name else if c == '?' then .one else .letter c) :: pieces rest := by
  rw [pieces]
  rintro more rfl rfl
  exact single rfl rfl

theorem piecesMarks {p : Char} {pattern : List Char} (single : p = '*' → pattern.head? ≠ some '*') :
    pieces ((p :: pattern).map slashed) =
      (if p = '*' then .name else if p = '?' then .one else .letter (slashed p)) :: pieces (pattern.map slashed) := by
  have star {c : Char} : slashed c = '*' ↔ c = '*' := slashedIs (by decide) (by decide)
  have mark : slashed p = '?' ↔ p = '?' := slashedIs (by decide) (by decide)
  have mapped : slashed p = '*' → (pattern.map slashed).head? ≠ some '*' := by
    intro first next
    rw [List.head?_map] at next
    obtain ⟨c, second, same⟩ := Option.map_eq_some_iff.mp next
    exact single (star.mp first) (star.mp same ▸ second)
  rw [List.map_cons, piecesCons mapped]
  simp only [beq_iff_eq, star, mark]

-- Runs are tried from the shortest on, and one of them is the run of a split if there is one.
theorem coversIff {pattern text : List Char} (line : '\n' ∉ text) :
    covers (pieces (pattern.map slashed)) text = true ↔ Split pattern text := by
  induction pattern using pieces.induct generalizing text with
  | case1 =>
    have other : text ≠ ['\n'] := by
      rintro rfl
      exact line List.mem_cons_self
    simp [pieces, covers, splitDone, other]
  | case2 pattern ih =>
    change afterRun _ _ text = true ↔ _
    rw [afterRunIff, splitAnything]
    refine exists_congr fun run => exists_congr fun rest => and_congr_right ?_
    rintro rfl
    obtain ⟨free, later⟩ := not_or.mp (mt List.mem_append.mpr line)
    rw [ih later, and_iff_right free]
  | case3 p pattern double ih =>
    have single : p = '*' → pattern.head? ≠ some '*' := by
      intro star next
      obtain ⟨more, rfl⟩ := List.head?_eq_some_iff.mp next
      exact double more star rfl
    have tail {c : Char} {rest : List Char} (whole : text = c :: rest) : '\n' ∉ rest := by
      rw [whole] at line
      exact fun inside => line (List.mem_cons_of_mem _ inside)
    rw [piecesMarks single]
    by_cases star : p = '*'
    · subst star
      change afterRun _ _ text = true ↔ _
      rw [afterRunIff, splitName (single rfl)]
      refine exists_congr fun run => exists_congr fun rest => and_congr_right ?_
      rintro rfl
      rw [ih (not_or.mp (mt List.mem_append.mpr line)).2]
    · rw [if_neg star]
      by_cases mark : p = '?'
      · subst mark
        rw [if_pos rfl, coversOne, splitOne]
        exact exists_congr fun c => exists_congr fun rest => and_congr_right fun whole =>
          and_congr_right' (ih (tail whole))
      · rw [if_neg mark, coversLetter, splitLetter star mark]
        exact exists_congr fun c => exists_congr fun rest => and_congr_right fun whole =>
          and_congr_right' (ih (tail whole))

theorem matchesExactly {pattern candidate : String} (line : '\n' ∉ candidate.toList) :
    (Rule.ofPattern pattern).matches candidate = true ↔ Split pattern.toList candidate.toList := by
  rw [Rule.matches, Rule.ofPattern, Path.forwardSlashes, String.toList_ofList]
  exact coversIff line

-- Stars of every kind side by side, marks that are letters elsewhere, and the sign of the kelvin for a K.
theorem starsRunSplit : '\n' ∉ "src/[\u212a]/a/b1.PHP".toList ∧
    (Rule.ofPattern "**\\[k]***?.php").matches "src/[\u212a]/a/b1.PHP" = true ∧
    Split "**\\[k]***?.php".toList "src/[\u212a]/a/b1.PHP".toList := by
  have line : '\n' ∉ "src/[\u212a]/a/b1.PHP".toList := by decide
  have covered : (Rule.ofPattern "**\\[k]***?.php").matches "src/[\u212a]/a/b1.PHP" = true := by decide +kernel
  exact ⟨line, covered, (matchesExactly line).mp covered⟩

end Glob
end DebugSweep
