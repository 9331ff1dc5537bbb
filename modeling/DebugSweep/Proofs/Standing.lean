import DebugSweep.Proofs.Cutting

/-! Findings that stand in lines while others are cut out. Main statements: cutting what stands
behind a finding leaves it at its place, and cutting findings that stand apart from it leaves its
text in the lines, wherever that moves to. -/
namespace DebugSweep.Clear
open Text

def Stands (lines : List (List Char)) (f : Finding) : Prop :=
  ∃ above before after below, lines = above ++ (before ++ f.content.toList ++ after) :: below ∧
    f.lineNumber = above.length + 1 ∧ f.column = before.length ∧ allBlank f.content.toList = false

theorem standsIff {lines : List (List Char)} {f : Finding} : Stands lines f ↔
    0 < f.lineNumber ∧ 0 ≤ f.column ∧ allBlank f.content.toList = false ∧
      ∃ line ∈ lines[(f.lineNumber - 1).toNat]?, standsAt f.content.toList f.column line = true := by
  constructor
  · rintro ⟨above, before, after, below, rfl, number, column, visible⟩
    refine ⟨by omega, by omega, visible, before ++ f.content.toList ++ after, ?_, ?_⟩
    · simp [number]
    · rw [column, standsAtNat]
      exact ⟨by simp, after, by simp⟩
  · rintro ⟨positive, left, visible, line, found, stands⟩
    obtain ⟨column, same⟩ : ∃ column : Nat, f.column = column := ⟨f.column.toNat, by omega⟩
    obtain ⟨inside, isLine⟩ := List.getElem?_eq_some_iff.mp found
    rw [same, standsAtNat] at stands
    obtain ⟨short, after, split⟩ := stands
    refine ⟨lines.take (f.lineNumber - 1).toNat, line.take column, after,
      lines.drop ((f.lineNumber - 1).toNat + 1), ?_, ?_, ?_, visible⟩
    · rw [← split, ← isLine, List.getElem_cons_drop, List.take_append_drop]
    · rw [List.length_take]
      omega
    · rw [same, List.length_take]
      omega

instance (lines : List (List Char)) (f : Finding) : Decidable (Stands lines f) :=
  decidable_of_iff _ standsIff.symm

def Before (a b : Finding) : Prop :=
  a.lineNumber < b.lineNumber ∨
    (a.lineNumber = b.lineNumber ∧ a.column + a.content.toList.length ≤ b.column)

instance (a b : Finding) : Decidable (Before a b) := inferInstanceAs (Decidable (_ ∨ _))

def Apart (a b : Finding) : Prop := Before a b ∨ Before b a

instance (a b : Finding) : Decidable (Apart a b) := inferInstanceAs (Decidable (_ ∨ _))

theorem Apart.symm {a b : Finding} (apart : Apart a b) : Apart b a := Or.symm apart

theorem blankAppend (left right : List Char) :
    allBlank (left ++ right) = (allBlank left && allBlank right) := List.all_append

theorem remainsVisible {line : List Char} (visible : allBlank line = false) : remains line = [line] := by
  simp [remains, visible]

theorem cutLineBehind {front after : List Char} {column : Nat} (length : Nat)
    (behind : front.length ≤ column) :
    ∃ rest, cutLine (front ++ after) column length = front ++ rest := by
  refine ⟨after.take (column - front.length) ++ (front ++ after).drop (column + length), ?_⟩
  rw [cutLineNat, List.take_append, List.take_of_length_le behind, List.append_assoc]

theorem laterParts {above above' below below' : List (List Char)} {line line' : List Char}
    (parts : above ++ line :: below = above' ++ line' :: below') (later : above.length < above'.length) :
    ∃ between, above' = above ++ line :: between ∧ below = between ++ line' :: below' := by
  rcases List.append_eq_append_iff.mp parts with ⟨between, left, right⟩ | ⟨between, left, right⟩
  · cases between with
    | nil => simp [left] at later
    | cons first between =>
      rw [List.cons_append, List.cons.injEq] at right
      obtain ⟨rfl, rest⟩ := right
      exact ⟨between, left, rest⟩
  · rw [left, List.length_append] at later
    omega

theorem sameParts {above above' below below' : List (List Char)} {line line' : List Char}
    (parts : above ++ line :: below = above' ++ line' :: below') (same : above.length = above'.length) :
    above = above' ∧ line = line' ∧ below = below' := by
  obtain ⟨left, right⟩ := List.append_inj parts same
  rw [List.cons.injEq] at right
  exact ⟨left, right⟩

theorem removeBehind {cut : Cut} {f g : Finding} (stands : Stands cut.lines f) (behind : Before f g) :
    Stands (cut.remove g).lines f := by
  rcases removeCases cut g with same | ⟨above', line, below', parts', number', _, result⟩
  · rwa [same]
  · obtain ⟨above, before, after, below, parts, number, column, visible⟩ := stands
    rw [parts] at parts'
    rw [result]
    by_cases later : above.length < above'.length
    · obtain ⟨between, rfl, _⟩ := laterParts parts' later
      exact ⟨above, before, after,
        between ++ remains (cutLine line g.column g.content.toList.length) ++ below',
        by simp, number, column, visible⟩
    · have bounds : above.length = above'.length ∧ f.column + f.content.toList.length ≤ g.column := by
        unfold Before at behind
        omega
      obtain ⟨rfl, rfl, rfl⟩ := sameParts parts' bounds.1
      obtain ⟨place, atPlace⟩ : ∃ place : Nat, g.column = place := ⟨g.column.toNat, by omega⟩
      obtain ⟨rest, cutAt⟩ := @cutLineBehind (before ++ f.content.toList) after place
        g.content.toList.length (by simp only [List.length_append]; omega)
      refine ⟨above, before, rest, below, ?_, number, column, visible⟩
      rw [atPlace, cutAt, remainsVisible (by simp [blankAppend, visible])]
      simp

theorem removeStanding {cut : Cut} {g : Finding} {above below : List (List Char)}
    {before after : List Char} (parts : cut.lines = above ++ (before ++ g.content.toList ++ after) :: below)
    (number : g.lineNumber = above.length + 1) (column : g.column = before.length) :
    (cut.remove g).lines = above ++ remains (before ++ after) ++ below := by
  have here : standsAt g.content.toList g.column (before ++ g.content.toList ++ after) = true := by
    rw [column, standsAtNat]
    exact ⟨by simp, after, by simp⟩
  rw [removeAt parts number, if_pos here, column, cutLineParts]

theorem frontParts {front left part right before after : List Char}
    (same : front ++ part ++ right = before ++ left ++ after)
    (short : before.length + left.length ≤ front.length) :
    ∃ between, front = before ++ left ++ between ∧ after = between ++ part ++ right := by
  rw [List.append_assoc front] at same
  rcases List.append_eq_append_iff.mp same with ⟨between, left', right'⟩ | ⟨between, left', right'⟩
  · have sizes := congrArg List.length left'
    simp only [List.length_append] at sizes
    have none : between = [] := List.length_eq_zero_iff.mp (by omega)
    subst none
    exact ⟨[], by simpa using left'.symm, by simpa using right'.symm⟩
  · exact ⟨between, left', by simpa using right'⟩

theorem frontVisible {h : Finding} {above below : List (List Char)} {before part after : List Char}
    (stands : Stands (above ++ (before ++ part ++ after) :: below) h)
    (number : h.lineNumber = above.length + 1)
    (short : h.column + h.content.toList.length ≤ before.length) : allBlank before = false := by
  obtain ⟨above', before', after', below', parts, number', column', visible⟩ := stands
  obtain ⟨rfl, line, rfl⟩ := sameParts parts (by omega)
  obtain ⟨between, rfl, _⟩ := frontParts line (by omega)
  simp [blankAppend, visible]

theorem removeAbove {cut : Cut} {f g : Finding} {above between below : List (List Char)}
    {left right before after : List Char}
    (parts : cut.lines = above ++ (left ++ g.content.toList ++ right) ::
      (between ++ (before ++ f.content.toList ++ after) :: below))
    (cutLine : g.lineNumber = above.length + 1) (cutColumn : g.column = left.length)
    (number : f.lineNumber = above.length + between.length + 2) (column : f.column = before.length)
    (visible : allBlank f.content.toList = false) :
    ∃ f', f'.content = f.content ∧ Stands (cut.remove g).lines f' ∧
      ∀ h, Stands cut.lines h → Before h g → Before h f' := by
  have result := removeStanding parts cutLine cutColumn
  cases blank : allBlank (left ++ right) with
  | false =>
    rw [remainsVisible blank] at result
    refine ⟨f, rfl, ⟨above ++ (left ++ right) :: between, before, after, below, by simp [result], ?_,
      column, visible⟩, ?_⟩
    · simp only [List.length_append, List.length_cons]
      omega
    · intro h _ first
      unfold Before at *
      omega
  | true =>
    have dropped : remains (left ++ right) = [] := by simp [remains, blank]
    rw [dropped] at result
    refine ⟨{ f with lineNumber := f.lineNumber - 1 }, rfl,
      ⟨above ++ between, before, after, below, by simp [result], ?_, column, visible⟩, ?_⟩
    · simp only [List.length_append]
      omega
    · intro h standing first
      have early : h.lineNumber < g.lineNumber := by
        by_contra same
        have bounds : h.lineNumber = g.lineNumber ∧ h.column + h.content.toList.length ≤ g.column := by
          unfold Before at first
          omega
        have shown := frontVisible (parts ▸ standing) (by omega) (by omega)
        simp [blankAppend, shown] at blank
      left
      show h.lineNumber < f.lineNumber - 1
      omega

theorem removeBeside {cut : Cut} {f g : Finding} {above below : List (List Char)}
    {left between after : List Char}
    (parts : cut.lines =
      above ++ (left ++ g.content.toList ++ (between ++ f.content.toList ++ after)) :: below)
    (cutLine : g.lineNumber = above.length + 1) (cutColumn : g.column = left.length)
    (number : f.lineNumber = above.length + 1) (visible : allBlank f.content.toList = false) :
    ∃ f', f'.content = f.content ∧ Stands (cut.remove g).lines f' ∧
      ∀ h, Stands cut.lines h → Before h g → Before h f' := by
  have result := removeStanding parts cutLine cutColumn
  rw [remainsVisible (by simp [blankAppend, visible])] at result
  refine ⟨{ f with column := (left ++ between).length }, rfl,
    ⟨above, left ++ between, after, below, by simp [result], number, rfl, visible⟩, ?_⟩
  intro h _ first
  unfold Before at *
  simp only [List.length_append]
  omega

theorem removeFront {cut : Cut} {f g : Finding} (stands : Stands cut.lines f)
    (cutting : Stands cut.lines g) (front : Before g f) :
    ∃ f', f'.content = f.content ∧ Stands (cut.remove g).lines f' ∧
      ∀ h, Stands cut.lines h → Before h g → Before h f' := by
  obtain ⟨above, before, after, below, parts, number, column, visible⟩ := stands
  obtain ⟨above', before', after', below', parts', number', column', _⟩ := cutting
  have both := parts'.symm.trans parts
  by_cases later : above'.length < above.length
  · obtain ⟨between, rfl, rfl⟩ := laterParts both later
    simp only [List.length_append, List.length_cons] at number
    exact removeAbove parts' number' column' (by omega) column visible
  · have bounds : above'.length = above.length ∧ g.column + g.content.toList.length ≤ f.column := by
      unfold Before at front
      omega
    obtain ⟨rfl, line, rfl⟩ := sameParts both bounds.1
    obtain ⟨between, rfl, rfl⟩ := frontParts line.symm (by omega)
    exact removeBeside parts' number' column' number visible

theorem foldBehind {findings : List Finding} {cut : Cut} {f : Finding} (stands : Stands cut.lines f)
    (behind : ∀ g ∈ findings, Before f g) : Stands (findings.foldl Cut.remove cut).lines f := by
  induction findings generalizing cut with
  | nil => exact stands
  | cons g rest ih =>
    apply ih
    · exact removeBehind stands (behind g List.mem_cons_self)
    · exact fun h member => behind h (List.mem_cons_of_mem _ member)

-- Those behind the finding are cut first and leave it alone. From the first one before it on, all
-- that are left to cut end before where it moves to.
theorem foldApart {findings : List Finding} {cut : Cut} {f : Finding} (stands : Stands cut.lines f)
    (order : findings.Pairwise (fun a b => Before b a)) (stand : ∀ g ∈ findings, Stands cut.lines g)
    (apart : ∀ g ∈ findings, Apart f g) :
    ∃ f', f'.content = f.content ∧ Stands (findings.foldl Cut.remove cut).lines f' := by
  induction findings generalizing cut f with
  | nil => exact ⟨f, rfl, stands⟩
  | cons g rest ih =>
    obtain ⟨first, order⟩ := List.pairwise_cons.mp order
    have here := stand g List.mem_cons_self
    have others : ∀ h ∈ rest, Stands (cut.remove g).lines h := fun h member =>
      removeBehind (stand h (List.mem_cons_of_mem _ member)) (first h member)
    rcases apart g List.mem_cons_self with behind | front
    · exact ih (removeBehind stands behind) order others
        (fun h member => apart h (List.mem_cons_of_mem _ member))
    · obtain ⟨f', content, stands', moved⟩ := removeFront stands here front
      obtain ⟨f'', content', stands''⟩ := ih stands' order others
        (fun h member => Or.inr (moved h (stand h (List.mem_cons_of_mem _ member)) (first h member)))
      exact ⟨f'', content'.trans content, stands''⟩

theorem standsNotEmpty {lines : List (List Char)} {f : Finding} (stands : Stands lines f) :
    0 < f.content.toList.length := by
  obtain ⟨_, _, _, _, _, _, _, visible⟩ := stands
  cases content : f.content.toList with
  | nil => simp [content, allBlank] at visible
  | cons c rest => simp

theorem fromLinesApart {lines : List (List Char)} {findings : List Finding} {f : Finding}
    (stands : Stands lines f) (stand : ∀ g ∈ findings, Stands lines g)
    (apart : ∀ g ∈ findings, Apart f g) (others : findings.Pairwise Apart) :
    ∃ f', f'.content = f.content ∧ Stands (fromLines lines findings).lines f' := by
  have perm := List.mergeSort_perm findings notBefore
  have pairwise : (findings.mergeSort notBefore).Pairwise Apart :=
    (perm.pairwise_iff Apart.symm).mpr others
  apply foldApart stands
  · refine ((cutOrder findings).and pairwise).imp_of_mem ?_
    intro a b left right both
    obtain ⟨order, between⟩ := both
    have := standsNotEmpty (stand a (perm.mem_iff.mp left))
    unfold Apart Before at between
    unfold Before
    omega
  · exact fun g member => stand g (perm.mem_iff.mp member)
  · exact fun g member => apart g (perm.mem_iff.mp member)

theorem fromLinesBehind {lines : List (List Char)} {findings : List Finding} {f : Finding}
    (stands : Stands lines f) (behind : ∀ g ∈ findings, Before f g) :
    Stands (fromLines lines findings).lines f := by
  have perm := List.mergeSort_perm findings notBefore
  exact foldBehind stands (fun g member => behind g (perm.mem_iff.mp member))

end DebugSweep.Clear
