import DebugSweep.Proofs.Location

/-! What stands before a brace. Main statements: behind blanks, tags and the characters that candidates
end at, a brace is read as at the start of the line. -/
namespace DebugSweep.Lexis
open Text

/-- What stands here does not matter to braces behind what follows it. Both are given backwards. -/
def Neutral (before : List Char) : Prop :=
  ∀ near, opensExpression (near ++ before) = opensExpression near

theorem Neutral.append {near before : List Char} (first : Neutral near) (second : Neutral before) :
    Neutral (near ++ before) := by
  intro nearest
  rw [← List.append_assoc, second, first]

def variableIn (body : List Char) : Bool :=
  (body.takeWhile isWord).getLast?.any (fun first => first.isAlpha || first == '_') &&
    (body.dropWhile isWord).head? == some '$'

theorem variableRead (body : List Char) :
    (match (body.takeWhile isWord).getLast?, body.drop (body.takeWhile isWord).length with
      | some first, '$' :: _ => first.isAlpha || first == '_'
      | _, _ => false) = variableIn body := by
  have rest : body.drop (body.takeWhile isWord).length = body.dropWhile isWord := by
    have split := List.takeWhile_append_dropWhile (p := isWord) (l := body)
    exact (congrArg (List.drop _) split).symm.trans List.drop_left
  rw [rest]
  unfold variableIn
  split
  · simp_all
  · rename_i other
    cases name : (body.takeWhile isWord).getLast? with
    | none => rfl
    | some first =>
      cases behind : body.dropWhile isWord with
      | nil => simp
      | cons c more =>
        have plain : c ≠ '$' := by
          rintro rfl
          exact other first more name behind
        simp [plain]

theorem variableBehindFeed (rest : List Char) : endsInVariable ('\n' :: rest) = variableIn rest :=
  variableRead rest

theorem variableBehind {before : List Char} (plain : before.head? ≠ some '\n') :
    endsInVariable before = variableIn before := by
  rw [← variableRead before]
  unfold endsInVariable
  split
  · simp at plain
  · rfl

theorem variableStops {before : List Char} (plain : (before.dropWhile isWord).head? ≠ some '$')
    (near : List Char) : variableIn (near ++ before) = variableIn near := by
  unfold variableIn
  rw [List.takeWhile_append, List.dropWhile_append]
  by_cases inside : (near.takeWhile isWord).length = near.length
  · have words : near.dropWhile isWord = [] := by
      have sizes := congrArg List.length (List.takeWhile_append_dropWhile (p := isWord) (l := near))
      rw [List.length_append] at sizes
      exact List.eq_nil_of_length_eq_zero (by omega)
    simp [words, plain]
  · have other : near.dropWhile isWord ≠ [] := by
      intro none
      have whole := List.takeWhile_append_dropWhile (p := isWord) (l := near)
      rw [none, List.append_nil] at whole
      exact inside (congrArg List.length whole)
    obtain ⟨c, rest, split⟩ := List.exists_cons_of_ne_nil other
    simp [inside, split]

theorem opensIff (before : List Char) : opensExpression before =
    (before.head? == some '$' || ['>', '-'].isPrefixOf before || [':', ':'].isPrefixOf before ||
      endsInVariable before) := by
  unfold opensExpression
  split
  · simp
  · simp
  · simp
  · rename_i dollar arrow colons
    match before with
    | [] => simp
    | [c] =>
      have plain : c ≠ '$' := fun same => dollar [] (by rw [same])
      simp [plain, List.isPrefixOf]
    | c :: d :: more =>
      have plain : c ≠ '$' := fun same => dollar (d :: more) (by rw [same])
      have first : ¬ (c = '>' ∧ d = '-') := fun both => arrow more (by rw [both.1, both.2])
      have second : ¬ (c = ':' ∧ d = ':') := fun both => colons more (by rw [both.1, both.2])
      simp only [List.head?_cons, List.isPrefixOf, Bool.and_true]
      grind

theorem pairStops {a b : Char} {before : List Char} (whole : ∀ more, before ≠ a :: b :: more)
    (first : before.head? ≠ some b) (near : List Char) :
    [a, b].isPrefixOf (near ++ before) = [a, b].isPrefixOf near := by
  match near with
  | [] =>
    rw [List.nil_append, Bool.eq_iff_iff, List.isPrefixOf_iff_prefix, List.isPrefixOf_iff_prefix]
    refine ⟨?_, by simp⟩
    rintro ⟨more, split⟩
    exact absurd split.symm (whole more)
  | [c] =>
    cases before with
    | nil => rfl
    | cons d more =>
      have other : b ≠ d := fun same => first (by rw [same]; rfl)
      simp [List.isPrefixOf, other]
  | c :: d :: near => simp [List.isPrefixOf]

theorem neutralOf {before : List Char} (plain : (before.dropWhile isWord).head? ≠ some '$')
    (feed : ∀ more, before = '\n' :: more → (more.dropWhile isWord).head? ≠ some '$')
    (dash : before.head? ≠ some '-') (colon : before.head? ≠ some ':')
    (arrow : ∀ more, before ≠ '>' :: '-' :: more) : Neutral before := by
  have dollar : before.head? ≠ some '$' := by
    cases before with
    | nil => simp
    | cons c more =>
      intro same
      obtain rfl : c = '$' := by simpa using same
      exact plain rfl
  have colons : ∀ more, before ≠ ':' :: ':' :: more := by
    rintro more rfl
    exact colon rfl
  intro near
  rw [opensIff, opensIff, pairStops arrow dash, pairStops colons colon]
  cases near with
  | nil =>
    have same : endsInVariable before = endsInVariable [] := by
      by_cases broken : before.head? = some '\n'
      · obtain ⟨more, rfl⟩ : ∃ more, before = '\n' :: more := by
          cases before with
          | nil => simp at broken
          | cons c more => exact ⟨more, by simpa using broken⟩
        rw [variableBehindFeed]
        exact variableStops (feed more rfl) []
      · rw [variableBehind broken]
        exact variableStops plain []
    simp [dollar, same]
  | cons c near =>
    have same : endsInVariable (c :: near ++ before) = endsInVariable (c :: near) := by
      by_cases broken : c = '\n'
      · rw [broken, List.cons_append, variableBehindFeed, variableBehindFeed, variableStops plain]
      · rw [variableBehind (by simpa using broken), variableBehind (by simpa using broken),
          variableStops plain]
    rw [same]
    rfl

theorem blankNoWord {c : Char} (blank : isBlank c = true) : isWord c = false := by
  have every : Scan.blanks.all (fun c => !isWord c) = true := by decide +kernel
  simpa using List.all_eq_true.mp every c (Scan.blankListed blank)

theorem blanksNeutral {text : List Char} (blank : allBlank text = true) : Neutral text := by
  induction text with
  | nil => exact fun near => by rw [List.append_nil]
  | cons c rest ih =>
    rw [allBlank, List.all_cons, Bool.and_eq_true] at blank
    have first : Neutral [c] := by
      apply neutralOf
      · have other : c ≠ '$' := blankOther blank.1 rfl
        simpa [List.dropWhile, blankNoWord blank.1] using other
      · rintro more same
        obtain ⟨-, rfl⟩ := List.cons.inj same
        simp
      · simpa using blankOther blank.1 (d := '-') rfl
      · simpa using blankOther blank.1 (d := ':') rfl
      · simp
    exact first.append (ih blank.2)

theorem cutNeutral {c : Char} (cut : c = ';' ∨ c = '\x7b' ∨ c = '\x7d') (more : List Char) :
    Neutral (c :: more) := by
  rcases cut with rfl | rfl | rfl
  all_goals
    apply neutralOf
    · rw [List.dropWhile_cons_of_neg (by decide)]
      simp
    · simp
    · simp
    · simp
    · simp

theorem lowerPlain {c d : Char} (plain : d.toNat < 97) (same : c.toLower = d) : c = d := by
  unfold Char.toLower at same
  split at same
  · rename_i capital
    have value := congrArg (fun c : Char => c.val.toNat) same
    have first : 65 ≤ c.val.toNat := UInt32.le_iff_toNat_le.mp capital.1
    have last : c.val.toNat ≤ 90 := UInt32.le_iff_toNat_le.mp capital.2
    have shift : ('a'.val - 'A'.val).toNat = 32 := by decide
    simp only [UInt32.toNat_add, shift] at value
    have small : d.val.toNat < 97 := plain
    omega
  · exact same

theorem wordsStop {front : List Char} {stop : Char} (plain : '$' ∉ front) (word : isWord stop = false)
    (other : stop ≠ '$') (more : List Char) :
    ((front ++ stop :: more).dropWhile isWord).head? ≠ some '$' := by
  induction front with
  | nil => simpa [word] using other
  | cons c rest ih =>
    have first : c ≠ '$' := fun same => plain (same ▸ List.mem_cons_self)
    rw [List.cons_append, List.dropWhile_cons]
    split
    · exact ih (fun member => plain (List.mem_cons_of_mem _ member))
    · simpa using first

theorem tagNeutral {text : List Char} (tag : 0 < tagLength text) (more : List Char) :
    Neutral ((text.take (tagLength text)).reverse ++ more) := by
  have here := tagHere tag
  generalize tagLength text = n at *
  cases here with
  | closing spelled =>
    have spelled : (text.take 2).map Char.toLower = ['?', '>'] := spelled
    simp only [List.map_eq_cons_iff, List.map_eq_nil_iff] at spelled
    obtain ⟨a, _, parts, first, b, _, rfl, second, rfl⟩ := spelled
    rw [parts, lowerPlain (by decide) first, lowerPlain (by decide) second]
    apply neutralOf <;> simp [isWord]
  | opening spelled =>
    have spelled : (text.take 5).map Char.toLower = ['<', '?', 'p', 'h', 'p'] := spelled
    simp only [List.map_eq_cons_iff, List.map_eq_nil_iff] at spelled
    obtain ⟨a, _, parts, first, b, _, rfl, second, c, _, rfl, third, d, _, rfl, fourth, e, _, rfl, fifth, rfl⟩ :=
      spelled
    have letter : ∀ {x y : Char}, x.toLower = y → y ≠ '$' ∧ y ≠ '\n' ∧ y ≠ '-' ∧ y ≠ ':' ∧ y ≠ '>' →
        x ≠ '$' ∧ x ≠ '\n' ∧ x ≠ '-' ∧ x ≠ ':' ∧ x ≠ '>' := by
      rintro x y rfl ⟨dollar, feed, dash, colon, arrow⟩
      refine ⟨?_, ?_, ?_, ?_, ?_⟩ <;> rintro rfl <;> contradiction
    have letters := letter third (by decide)
    have letters' := letter fourth (by decide)
    have letters'' := letter fifth (by decide)
    rw [parts, lowerPlain (by decide) first, lowerPlain (by decide) second]
    have plain : '$' ∉ [e, d, c] := by simp [letters.1.symm, letters'.1.symm, letters''.1.symm]
    apply neutralOf
    · exact @wordsStop [e, d, c] '?' plain (by decide) (by decide) _
    · intro rest same
      exact absurd (List.cons.inj same).1 letters''.2.1
    · simpa using letters''.2.2.1
    · simpa using letters''.2.2.2.1
    · intro rest same
      exact absurd (List.cons.inj same).1 letters''.2.2.2.2
  | short spelled =>
    have spelled : (text.take 2).map Char.toLower = ['<', '?'] := spelled
    simp only [List.map_eq_cons_iff, List.map_eq_nil_iff] at spelled
    obtain ⟨a, _, parts, first, b, _, rfl, second, rfl⟩ := spelled
    rw [parts, lowerPlain (by decide) first, lowerPlain (by decide) second]
    apply neutralOf <;> simp [isWord]

end DebugSweep.Lexis
