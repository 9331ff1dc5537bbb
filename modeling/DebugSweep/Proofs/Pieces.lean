import Mathlib.Data.List.Forall2
import Mathlib.Data.List.Nodup

/-! Pieces of lists. Main statements: a list that is cut at an item leaves pieces without it, sorting
by a text and erasing repetitions leaves each item once, and steps that all succeed give what each of
them gives. -/
namespace DebugSweep

theorem splitFree {separator : Char} {text piece : List Char} (member : piece ∈ text.splitOn separator) :
    separator ∉ piece := by
  induction text generalizing piece with
  | nil => simp_all
  | cons c rest ih =>
    rw [List.splitOn_cons_eq_if_modifyHead] at member
    split at member
    · rcases List.mem_cons.mp member with rfl | later
      · simp
      · exact ih later
    · rename_i other
      cases parts : rest.splitOn separator with
      | nil => simp [parts] at member
      | cons first more =>
        rw [parts] at member ih
        rcases List.mem_cons.mp member with rfl | later
        · have fresh := ih List.mem_cons_self
          have apart : separator ≠ c := fun same => other (by simp [same])
          simpa [apart] using fresh
        · exact ih (List.mem_cons_of_mem _ later)

theorem repsDone {α : Type} [BEq α] (a : α) (rest done : List α) :
    List.eraseRepsBy.loop (· == ·) a rest done =
      done.reverse ++ List.eraseRepsBy.loop (· == ·) a rest [] := by
  induction rest generalizing a done with
  | nil => simp [List.eraseRepsBy.loop]
  | cons b rest ih =>
    rw [List.eraseRepsBy.loop, List.eraseRepsBy.loop]
    split
    · exact ih a done
    · rw [ih b (a :: done), ih b [a]]
      simp

theorem repsOnce {α : Type} [BEq α] [LawfulBEq α] {key : α → String} {a : α} {rest : List α}
    (sorted : (a :: rest).Pairwise (fun a b => key a ≤ key b))
    (injective : ∀ x ∈ a :: rest, ∀ y ∈ a :: rest, key x = key y → x = y) :
    (List.eraseRepsBy.loop (· == ·) a rest []).Pairwise (fun a b => key a < key b) ∧
      ∀ x, x ∈ List.eraseRepsBy.loop (· == ·) a rest [] ↔ x ∈ a :: rest := by
  induction rest generalizing a with
  | nil => simp [List.eraseRepsBy.loop]
  | cons b rest ih =>
    obtain ⟨first, later⟩ := List.pairwise_cons.mp sorted
    have fewer : ∀ x ∈ b :: rest, ∀ y ∈ b :: rest, key x = key y → x = y := fun x left y right =>
      injective x (List.mem_cons_of_mem _ left) y (List.mem_cons_of_mem _ right)
    obtain ⟨strict, members⟩ := ih later fewer
    rw [List.eraseRepsBy.loop]
    cases same : a == b with
    | true =>
      obtain rfl : a = b := by simpa using same
      exact ⟨strict, fun x => by rw [members]; simp⟩
    | false =>
      have other : a ≠ b := by simpa using same
      dsimp only
      rw [repsDone b rest [a]]
      constructor
      · refine List.pairwise_cons.mpr ⟨?_, strict⟩
        intro x member
        have inside := (members x).mp member
        refine String.not_le.mp fun back => other ?_
        have equal : key a = key x := String.le_antisymm (first x inside) back
        -- What stands between two equal items would be equal to both.
        have between : key b ≤ key x := by
          rcases List.mem_cons.mp inside with rfl | behind
          · exact String.le_refl _
          · exact (List.pairwise_cons.mp later).1 x behind
        have middle : key a = key b :=
          String.le_antisymm (first b List.mem_cons_self) (equal ▸ between)
        exact injective a List.mem_cons_self b (by simp) middle
      · intro x
        rw [List.reverse_singleton, List.singleton_append, List.mem_cons, members, List.mem_cons (b := a)]

theorem sortedKeys {α : Type} (key : α → String) (items : List α) :
    (items.mergeSort (fun a b => decide (key a ≤ key b))).Pairwise (fun a b => key a ≤ key b) := by
  have pairs : (items.mergeSort (fun a b => decide (key a ≤ key b))).Pairwise
      (fun a b => decide (key a ≤ key b) = true) := by
    apply List.pairwise_mergeSort
    · simpa using fun a b c => String.le_trans
    · simpa using fun a b => String.le_total (key a) (key b)
  exact pairs.imp (by simp)

theorem sortedOnce {α : Type} [BEq α] [LawfulBEq α] (key : α → String) (items : List α)
    (injective : ∀ x ∈ items, ∀ y ∈ items, key x = key y → x = y) :
    (items.mergeSort (fun a b => decide (key a ≤ key b))).eraseReps.Pairwise (fun a b => key a < key b) ∧
      ∀ x, x ∈ (items.mergeSort (fun a b => decide (key a ≤ key b))).eraseReps ↔ x ∈ items := by
  have perm := List.mergeSort_perm items (fun a b => decide (key a ≤ key b))
  have sorted := sortedKeys key items
  generalize items.mergeSort (fun a b => decide (key a ≤ key b)) = listed at perm sorted
  cases listed with
  | nil =>
    obtain rfl : items = [] := by simpa using perm
    simp [List.eraseReps, List.eraseRepsBy]
  | cons a rest =>
    have once := repsOnce sorted (fun x left y right =>
      injective x (perm.mem_iff.mp left) y (perm.mem_iff.mp right))
    exact ⟨once.1, fun x => (once.2 x).trans perm.mem_iff⟩

section
variable {α : Type} {items : List α} {i : Nat} {a : α} (here : items[i]? = some a)
include here

theorem dropHere : items.drop i = a :: items.drop (i + 1) := by
  obtain ⟨inside, rfl⟩ := List.getElem?_eq_some_iff.mp here
  exact List.drop_eq_getElem_cons inside

theorem takeHere : items.take (i + 1) = items.take i ++ [a] := by
  obtain ⟨inside, rfl⟩ := List.getElem?_eq_some_iff.mp here
  exact List.take_succ_eq_append_getElem inside

theorem splitHere : items = items.take i ++ a :: items.drop (i + 1) := by
  rw [← dropHere here, List.take_append_drop]

end

theorem bindOkIff {ε α β : Type} {first : Except ε α} {next : α → Except ε β} {b : β} :
    (first >>= next) = .ok b ↔ ∃ a, first = .ok a ∧ next a = .ok b := by
  cases first <;> simp [bind, Except.bind]

theorem mapErrorOk {ε ε' α : Type} {result : Except ε α} {f : ε → ε'} {a : α}
    (done : result.mapError f = .ok a) : result = .ok a := by
  cases result with
  | error fault => contradiction
  | ok b =>
    cases done
    rfl

section
variable {ε α β : Type} {f : α → Except ε β} {items : List α} {results : List β}

theorem mapEachIff : items.mapM f = .ok results ↔ List.Forall₂ (fun a b => f a = .ok b) items results := by
  induction items generalizing results with
  | nil => cases results <;> simp [pure, Except.pure]
  | cons a items ih =>
    rw [List.mapM_cons, bindOkIff]
    constructor
    · rintro ⟨b, here, later⟩
      obtain ⟨rest, each, made⟩ := bindOkIff.mp later
      cases made
      exact .cons here (ih.mp each)
    · rintro (_ | ⟨here, later⟩)
      exact ⟨_, here, bindOkIff.mpr ⟨_, ih.mpr later, rfl⟩⟩

theorem mapSource (done : items.mapM f = .ok results) : ∀ b ∈ results, ∃ a ∈ items, f a = .ok b := by
  have each := mapEachIff.mp done
  clear done
  induction each with
  | nil => simp
  | cons here later ih =>
    refine List.forall_mem_cons.mpr ⟨⟨_, List.mem_cons_self, here⟩, fun b member => ?_⟩
    obtain ⟨a, known, given⟩ := ih b member
    exact ⟨a, List.mem_cons_of_mem _ known, given⟩

theorem mapMemberIff (done : items.mapM f = .ok results) {b : β} : b ∈ results ↔ ∃ a ∈ items, f a = .ok b := by
  refine ⟨mapSource done b, ?_⟩
  have each := mapEachIff.mp done
  clear done
  induction each with
  | nil => simp
  | cons here later ih =>
    rintro ⟨a, member, given⟩
    rcases List.mem_cons.mp member with rfl | inside
    · cases here.symm.trans given
      exact List.mem_cons_self
    · exact List.mem_cons_of_mem _ (ih ⟨a, inside, given⟩)

theorem mapDone (each : ∀ a ∈ items, ∃ b, f a = .ok b) : ∃ results, items.mapM f = .ok results := by
  induction items with
  | nil => exact ⟨[], rfl⟩
  | cons a items ih =>
    obtain ⟨⟨b, here⟩, later⟩ := List.forall_mem_cons.mp each
    obtain ⟨rest, done⟩ := ih later
    exact ⟨b :: rest, mapEachIff.mpr (.cons here (mapEachIff.mp done))⟩

theorem mapStops {front back : List α} {a : α} {fault : ε} (before : ∀ a ∈ front, ∃ b, f a = .ok b)
    (failed : f a = .error fault) : (front ++ a :: back).mapM f = .error fault := by
  induction front with
  | nil =>
    rw [List.nil_append, List.mapM_cons, failed]
    rfl
  | cons b front ih =>
    obtain ⟨⟨c, here⟩, later⟩ := List.forall_mem_cons.mp before
    rw [List.cons_append, List.mapM_cons, here, ih later]
    rfl

end

end DebugSweep
