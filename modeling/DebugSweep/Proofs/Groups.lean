import DebugSweep.Proofs.Expressions

/-! Bracketed groups. Quoted parts and nested pairs are described by themselves, without the walk. Main statement: what
the walk passes over is exactly a group with its closer behind it. -/
namespace DebugSweep.Edit
open Text Lexis

inductive Quoted (mark : Char) : List Char → Prop where
  | ends : Quoted mark [mark]
  | plain {c : Char} {text : List Char} (other : c ≠ mark) (unescaping : c ≠ '\\') (more : Quoted mark text) :
      Quoted mark (c :: text)
  | escaped {text : List Char} (c : Char) (more : Quoted mark text) : Quoted mark ('\\' :: c :: text)

/-- Text in which, quoted parts aside, each closer closes an opener and all openers are closed. -/
inductive Group (opener closer : Char) : List Char → Prop where
  | empty : Group opener closer []
  | plain {c : Char} {text : List Char} (unquoted : isQuote c = false) (opening : c ≠ opener) (closing : c ≠ closer)
      (more : Group opener closer text) : Group opener closer (c :: text)
  | quoted {mark : Char} {part text : List Char} (quotes : isQuote mark = true) (inside : Quoted mark part)
      (more : Group opener closer text) : Group opener closer (mark :: (part ++ text))
  | nested {inner text : List Char} (inside : Group opener closer inner) (more : Group opener closer text) :
      Group opener closer (opener :: (inner ++ closer :: text))

def Balance.bare (depth : Int) : Balance := { depth }

section
variable {opener closer : Char} {depth offset place : Int} {slashes : Nat} {text : List Char}

theorem markPlain {c : Char} (quotes : isQuote c = true) : c ≠ '\\' := by
  rintro rfl
  contradiction

theorem runBare (depth offset : Int) (slashes : Nat) (text : List Char) :
    Balance.run opener closer ⟨depth, none, slashes⟩ offset text =
      (Balance.bare depth).run opener closer offset text := by
  induction text generalizing depth offset slashes with
  | nil => rfl
  | cons c text ih =>
    rw [Balance.run, Balance.run, Balance.step, Balance.step, Balance.bare]
    dsimp only
    split_ifs with quotes escape
    · exact absurd escape (by simpa using markPlain quotes)
    all_goals simp only [ih]

theorem runOutside (c : Char) : (Balance.bare depth).run opener closer offset (c :: text) =
    if isQuote c then Balance.run opener closer ⟨depth, some c, 0⟩ (offset + 1) text
    else if c = opener then (Balance.bare (depth + 1)).run opener closer (offset + 1) text
    else if c = closer then
      if depth = 1 then some offset
      else if depth < 1 then none
      else (Balance.bare (depth - 1)).run opener closer (offset + 1) text
    else (Balance.bare depth).run opener closer (offset + 1) text := by
  rw [Balance.run, Balance.step, Balance.bare]
  simp only [beq_iff_eq]
  split_ifs with quotes escape
  · exact absurd escape (markPlain quotes)
  all_goals simp only [runBare]

-- Inside quoted text it matters only whether the number of backslashes before is even.
theorem runParity (mark : Char) (depth offset : Int) (slashes : Nat) (text : List Char) :
    Balance.run opener closer ⟨depth, some mark, slashes⟩ offset text =
      Balance.run opener closer ⟨depth, some mark, slashes % 2⟩ offset text := by
  induction text generalizing offset slashes with
  | nil => rfl
  | cons c text ih =>
    rw [Balance.run, Balance.run, Balance.step, Balance.step]
    simp only [Nat.mod_mod]
    split
    · rw [runBare, runBare]
    · split
      · rw [ih, ih _ (slashes % 2 + 1), Nat.mod_add_mod]
      · rfl

theorem runInside (mark c : Char) : Balance.run opener closer ⟨depth, some mark, 0⟩ offset (c :: text) =
    if c = mark then (Balance.bare depth).run opener closer (offset + 1) text
    else Balance.run opener closer ⟨depth, some mark, if c = '\\' then 1 else 0⟩ (offset + 1) text := by
  rw [Balance.run, Balance.step]
  simp only [beq_iff_eq, Nat.zero_mod, beq_self_eq_true, Bool.and_true]
  split
  · rw [runBare]
  · rfl

theorem runEscaped (mark c : Char) : Balance.run opener closer ⟨depth, some mark, 1⟩ offset (c :: text) =
    Balance.run opener closer ⟨depth, some mark, 0⟩ (offset + 1) text := by
  rw [Balance.run, Balance.step]
  dsimp only
  rw [show (1 % 2 == 0) = false from rfl, Bool.and_false, if_neg (by decide), runParity]
  split <;> rfl

theorem quotedRuns {mark : Char} {part : List Char} (quotes : isQuote mark = true) (inside : Quoted mark part)
    (offset : Int) (rest : List Char) : Balance.run opener closer ⟨depth, some mark, 0⟩ offset (part ++ rest) =
      (Balance.bare depth).run opener closer (offset + part.length) rest := by
  induction inside generalizing offset with
  | ends => exact (runInside _ _).trans (if_pos rfl)
  | plain other unescaping more ih =>
    rw [List.cons_append, runInside, if_neg other, if_neg unescaping, ih, List.length_cons]
    congr 1
    omega
  | escaped c more ih =>
    rw [List.cons_append, List.cons_append, runInside, if_neg (markPlain quotes).symm, if_pos rfl, runEscaped, ih]
    simp only [List.length_cons]
    congr 1
    omega

-- The induction is on the length, since an escaped character is passed with its backslash.
theorem quotedSource {mark : Char}
    (runs : Balance.run opener closer ⟨depth, some mark, 0⟩ offset text = some place) :
    ∃ part rest, text = part ++ rest ∧ Quoted mark part := by
  induction size : text.length using Nat.strong_induction_on generalizing text offset with
  | _ n ih =>
    cases text with
    | nil => contradiction
    | cons c text =>
      rw [List.length_cons] at size
      rw [runInside] at runs
      split at runs
      · rename_i closes
        exact ⟨[c], text, rfl, closes ▸ .ends⟩
      · rename_i other
        split at runs
        · rename_i escape
          cases text with
          | nil => contradiction
          | cons d text =>
            rw [List.length_cons] at size
            rw [runEscaped] at runs
            obtain ⟨part, rest, rfl, inside⟩ := ih _ (by omega) runs rfl
            exact ⟨'\\' :: d :: part, rest, by rw [escape]; rfl, .escaped d inside⟩
        · rename_i plain
          obtain ⟨part, rest, rfl, inside⟩ := ih _ (by omega) runs rfl
          exact ⟨c :: part, rest, rfl, .plain other plain inside⟩

end

section
variable {opener closer : Char} {depth offset place : Int} {text : List Char}

theorem Paired.plain (pair : Paired opener closer) :
    isQuote opener = false ∧ isQuote closer = false ∧ closer ≠ opener := by
  rcases pair with ⟨rfl, rfl⟩ | ⟨rfl, rfl⟩ <;> decide

theorem groupRuns (pair : Paired opener closer) {group : List Char} (grouped : Group opener closer group)
    (inside : 1 ≤ depth) (offset : Int) (rest : List Char) :
    (Balance.bare depth).run opener closer offset (group ++ rest) =
      (Balance.bare depth).run opener closer (offset + group.length) rest := by
  obtain ⟨opens, closes, apart⟩ := pair.plain
  induction grouped generalizing depth offset rest with
  | empty => simp
  | plain unquoted opening closing more ih =>
    rw [List.cons_append, runOutside, if_neg (by simp [unquoted]), if_neg opening, if_neg closing, ih inside,
      List.length_cons]
    congr 1
    omega
  | quoted quotes part more ih =>
    rw [List.cons_append, runOutside, if_pos quotes, List.append_assoc, quotedRuns quotes part, ih inside]
    simp only [List.length_cons, List.length_append]
    congr 1
    omega
  | nested inner more first second =>
    rw [List.cons_append, runOutside, if_neg (by simp [opens]), if_pos rfl, List.append_assoc,
      first (by omega), List.cons_append, runOutside, if_neg (by simp [closes]), if_neg apart, if_pos rfl,
      if_neg (by omega), if_neg (by omega), Int.add_sub_cancel, second inside]
    simp only [List.length_cons, List.length_append]
    congr 1
    omega

theorem groupSource (pair : Paired opener closer) (inside : 1 ≤ depth)
    (runs : (Balance.bare depth).run opener closer offset text = some place) :
    ∃ group rest, Group opener closer group ∧ text = group ++ closer :: rest := by
  obtain ⟨opens, closes, apart⟩ := pair.plain
  induction size : text.length using Nat.strong_induction_on generalizing text offset depth with
  | _ n ih =>
    cases text with
    | nil => contradiction
    | cons c text =>
      rw [List.length_cons] at size
      rw [runOutside] at runs
      split at runs
      · rename_i quotes
        obtain ⟨part, rest, rfl, quoted⟩ := quotedSource runs
        rw [quotedRuns quotes quoted] at runs
        rw [List.length_append] at size
        obtain ⟨group, rest, more, rfl⟩ := ih _ (by omega) inside runs rfl
        exact ⟨_, rest, .quoted quotes quoted more, by simp⟩
      · rename_i unquoted
        split at runs
        · rename_i opening
          subst opening
          obtain ⟨inner, rest, nested, rfl⟩ := ih _ (by omega) (by omega) runs rfl
          rw [groupRuns pair nested (by omega), runOutside, if_neg (by simp [closes]), if_neg apart, if_pos rfl,
            if_neg (by omega), if_neg (by omega), Int.add_sub_cancel] at runs
          simp only [List.length_append, List.length_cons] at size
          obtain ⟨group, rest, more, rfl⟩ := ih _ (by omega) inside runs rfl
          exact ⟨_, rest, .nested nested more, by simp⟩
        · rename_i opening
          split at runs
          · rename_i closing
            exact ⟨[], text, .empty, by rw [closing]; rfl⟩
          · rename_i closing
            obtain ⟨group, rest, more, rfl⟩ := ih _ (by omega) inside runs rfl
            exact ⟨c :: group, rest, .plain (Bool.eq_false_iff.mpr unquoted) opening closing more, rfl⟩

theorem dropGroupIff (pair : Paired opener closer) {rest : List Char} :
    dropGroup? opener closer (opener :: text) = some rest ↔
      ∃ group, Group opener closer group ∧ text = group ++ closer :: rest := by
  obtain ⟨opens, closes, apart⟩ := pair.plain
  have starts (text : List Char) : Balance.run opener closer {} 0 (opener :: text) =
      (Balance.bare 1).run opener closer 1 text :=
    (runOutside opener).trans (by rw [if_neg (by simp [opens]), if_pos rfl]; rfl)
  have ends (group rest : List Char) (grouped : Group opener closer group) :
      dropGroup? opener closer (opener :: (group ++ closer :: rest)) = some rest := by
    have runs : Balance.run opener closer {} 0 (opener :: (group ++ closer :: rest)) =
        some (1 + (group.length : Int)) := by
      rw [starts, groupRuns pair grouped (by decide), runOutside, if_neg (by simp [closes]), if_neg apart, if_pos rfl,
        if_pos rfl]
    have size : (1 + (group.length : Int)).toNat + 1 = (opener :: (group ++ [closer])).length := by
      simp only [List.length_cons, List.length_append, List.length_nil]
      omega
    have split : opener :: (group ++ closer :: rest) = opener :: (group ++ [closer]) ++ rest := by simp
    rw [dropGroup?, closing?, runs, Option.map_some, Option.map_some, size, split, List.drop_left]
  constructor
  · intro dropped
    obtain ⟨offset, closing, -⟩ := Option.map_eq_some_iff.mp dropped
    obtain ⟨place, runs, -⟩ := Option.map_eq_some_iff.mp closing
    obtain ⟨group, behind, grouped, rfl⟩ := groupSource pair (by decide) (starts text ▸ runs)
    obtain rfl : behind = rest := Option.some.inj ((ends group behind grouped).symm.trans dropped)
    exact ⟨group, grouped, rfl⟩
  · rintro ⟨group, grouped, rfl⟩
    exact ends group rest grouped

theorem groupUnique (pair : Paired opener closer) {first second rest rest' : List Char}
    (left : Group opener closer first) (right : Group opener closer second)
    (same : first ++ closer :: rest = second ++ closer :: rest') : first = second := by
  have dropped := (dropGroupIff pair).mpr ⟨second, right, same⟩
  obtain rfl : rest = rest' := Option.some.inj (((dropGroupIff pair).mpr ⟨first, left, rfl⟩).symm.trans dropped)
  exact List.append_cancel_right same

end
end DebugSweep.Edit
