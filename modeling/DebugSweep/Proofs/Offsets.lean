import DebugSweep.Proofs.Reading

/-! Offsets of code in its line. Main statement: they are those of the characters of class code in rising order, the
text of the code is what stands there, and the way from positions in the code to offsets keeps the order, also
before the first position and behind the last one. -/
namespace DebugSweep.Lexis

namespace CodeLine
variable {code : CodeLine}

theorem rawOffsetCases (code : CodeLine) (index : Int) :
    (code.offsets = [] ∧ code.rawOffset index = 0) ∨
      code.offsets[index.toNat]? = some (code.rawOffset index) ∨
      ∃ last, code.offsets.getLast? = some last ∧ code.offsets.length ≤ index.toNat ∧
        code.rawOffset index = last + 1 := by
  unfold rawOffset
  cases ends : code.offsets.getLast? with
  | none => exact .inl ⟨List.getLast?_eq_none_iff.mp ends, rfl⟩
  | some last =>
    right
    cases here : code.offsets[index.toNat]? with
    | none => exact .inr ⟨last, rfl, List.getElem?_eq_none_iff.mp here, rfl⟩
    | some o => exact .inl rfl

section
variable (rising : code.offsets.Pairwise (· < ·))
include rising

theorem offsetsOrdered {i j o p : Nat} (left : code.offsets[i]? = some o) (right : code.offsets[j]? = some p)
    (order : i ≤ j) : o ≤ p := by
  obtain ⟨insideLeft, rfl⟩ := List.getElem?_eq_some_iff.mp left
  obtain ⟨insideRight, rfl⟩ := List.getElem?_eq_some_iff.mp right
  rcases Nat.lt_or_eq_of_le order with less | rfl
  · exact Nat.le_of_lt (List.pairwise_iff_getElem.mp rising i j insideLeft insideRight less)
  · exact Nat.le_refl _

theorem rawOffsetMonotone {index index' : Int} (order : index ≤ index') :
    code.rawOffset index ≤ code.rawOffset index' := by
  have places : index.toNat ≤ index'.toNat := Int.toNat_le_toNat order
  rcases code.rawOffsetCases index with ⟨-, zero⟩ | here | ⟨last, ends, past, behind⟩
  · exact zero ▸ Nat.zero_le _
  · rcases code.rawOffsetCases index' with ⟨bare, -⟩ | here' | ⟨last, ends, -, behind'⟩
    · simp [bare] at here
    · exact offsetsOrdered rising here here' places
    · have inside := (List.getElem?_eq_some_iff.mp here).1
      rw [List.getLast?_eq_getElem?] at ends
      have order := offsetsOrdered rising here ends (by omega)
      omega
  · rcases code.rawOffsetCases index' with ⟨bare, -⟩ | here' | ⟨last', ends', -, behind'⟩
    · simp [bare] at ends
    · have inside := (List.getElem?_eq_some_iff.mp here').1
      omega
    · rw [ends] at ends'
      cases ends'
      omega

end

theorem rawOffsetBound {length : Nat} (inside : ∀ o ∈ code.offsets, o < length) (index : Int) :
    code.rawOffset index ≤ length := by
  rcases code.rawOffsetCases index with ⟨-, zero⟩ | here | ⟨last, ends, -, behind⟩
  · omega
  · exact Nat.le_of_lt (inside _ (List.mem_of_getElem? here))
  · have := inside last (List.mem_of_getLast? ends)
    omega

end CodeLine

theorem offsetMember {text : List Char} {state : LineState} {o : Nat} :
    o ∈ (codeOf text state).offsets ↔ (classify text state).classes[o]? = some .code := by
  constructor
  · intro member
    obtain ⟨⟨o, c⟩, inside, rfl⟩ := List.mem_map.mp member
    exact (codeMember.mp inside).2
  · intro live
    have inside := (List.getElem?_eq_some_iff.mp live).1
    rw [classifyReads, classesLength] at inside
    exact List.mem_map.mpr ⟨(o, text[o]), codeMember.mpr ⟨List.getElem?_eq_getElem inside, live⟩, rfl⟩

theorem textAtOffsets (text : List Char) (state : LineState) :
    (codeOf text state).text.map some = (codeOf text state).offsets.map (text[·]?) := by
  rw [CodeLine.text, CodeLine.offsets, List.map_map, List.map_map]
  refine List.map_congr_left fun place member => ?_
  exact (codeMember.mp member).1.symm

theorem offsetsFaithful (text : List Char) (state : LineState) :
    ((codeOf text state).offsets.Pairwise (· < ·) ∧
        ∀ o, o ∈ (codeOf text state).offsets ↔ (classify text state).classes[o]? = some .code) ∧
      (codeOf text state).text.map some = (codeOf text state).offsets.map (text[·]?) ∧
      (∀ index index', index ≤ index' →
        (codeOf text state).rawOffset index ≤ (codeOf text state).rawOffset index') ∧
      (∀ index, (codeOf text state).rawOffset index ≤ text.length) ∧
      ∀ i : Fin (codeOf text state).offsets.length,
        (codeOf text state).rawOffset (i : Nat) = (codeOf text state).offsets[i] := by
  have rising := codeOffsetsRising text state
  refine ⟨⟨rising, fun _ => offsetMember⟩, textAtOffsets text state, fun _ _ => CodeLine.rawOffsetMonotone rising, ?_, ?_⟩
  · refine CodeLine.rawOffsetBound fun o member => ?_
    have inside := (List.getElem?_eq_some_iff.mp (offsetMember.mp member)).1
    rwa [classifyReads, classesLength] at inside
  · intro i
    have here := List.getElem?_eq_getElem i.isLt
    rcases (codeOf text state).rawOffsetCases (i : Nat) with ⟨bare, -⟩ | same | ⟨_, -, past, -⟩
    · simp [bare] at here
    · exact Option.some.inj (same.symm.trans here)
    · exact absurd i.isLt (Nat.not_lt.mpr past)

example : ([-3, 0, 2, 3, 9].map (codeOf "a /*b*/ c#".toList {}).rawOffset) = [0, 0, 7, 8, 9] := by decide

end DebugSweep.Lexis
