import DebugSweep.Proofs.Anchors
import DebugSweep.Proofs.Balance
import DebugSweep.Proofs.Standing

/-! Clearing reported statements from a balanced text. Main statement: of statements that are
located where they were recognised and leave no comment open, every choice can be cleared so that
the text stays balanced, exactly when each of them holds as many opening as closing braces. -/
namespace DebugSweep.Clear
open Text Lexis Edit Scan

def Balanced (source : List Char) : Prop := (Document.ofText source).checkBalance = .ok ()

instance (source : List Char) : Decidable (Balanced source) := inferInstanceAs (Decidable (_ = _))

def clearText (source : List Char) (findings : List Finding) : List Char :=
  unlines (fromLines (lines source) findings).lines

/-- A statement reported of the text whose token the line shows in one piece, whose halt if any is
located in code, and that leaves no comment open. -/
def StandsInCode (origin : Origin) (source : List Char) (f : Finding) : Prop :=
  ∃ row ∈ rows source, ∃ m ∈ row.statements, row.Spells m ∧ row.HaltsInCode m ∧
    finding? origin row.number row.line row.code m = some f ∧ (codeOf f.content.toList {}).exit = {}

instance (origin : Origin) (source : List Char) (f : Finding) :
    Decidable (StandsInCode origin source f) :=
  inferInstanceAs (Decidable (∃ row ∈ rows source, ∃ m ∈ row.statements, _))

theorem standsParts {origin : Origin} {source : List Char} {f : Finding}
    (stands : StandsInCode origin source f) :
    ∃ above before c kept after below,
      lines source = above ++ (before ++ f.content.toList ++ after) :: below ∧
      f.lineNumber = above.length + 1 ∧ f.column = before.length ∧
      f.content.toList = c :: kept ∧ isBlank c = false ∧
      (stateBehind {} above).mode.LeadsToCode before ∧ Ends f.content.toList after := by
  obtain ⟨row, inside, m, recognised, spelled, halts, found, closed⟩ := stands
  obtain ⟨later, short, tells⟩ := Row.spelledTells spelled found
  obtain ⟨c, kept, _, body, shown, _⟩ := contentStands tells later spelled
  obtain ⟨after, line, ends⟩ := Row.contentEnds recognised spelled halts found
  obtain ⟨n, atN, number⟩ := rowAt inside
  obtain ⟨raw, atRaw, trimmed, inherited⟩ := rowSource atN
  obtain ⟨returns, whole, only⟩ := dropEndSplit '\r' raw
  obtain ⟨within, isRaw⟩ := List.getElem?_eq_some_iff.mp atRaw
  have parts : raw = row.line.take (row.anchor m) ++ f.content.toList ++ (after ++ returns) := by
    rw [← List.append_assoc, ← line, trimmed, ← whole]
  have size : (row.line.take (row.anchor m)).length = row.anchor m := by
    rw [List.length_take]
    omega
  refine ⟨(lines source).take n, row.line.take (row.anchor m), c, kept, after ++ returns,
    (lines source).drop (n + 1), ?_, ?_, ?_, body, shown, ?_, ?_⟩
  · rw [← parts, ← isRaw, List.getElem_cons_drop, List.take_append_drop]
  · rw [tells.lineNumber, number, List.length_take]
    omega
  · rw [tells.column, size]
  · rw [← inherited]
    exact Row.anchorLeads recognised
  · rcases ends with code | blank
    · exact Or.inl code
    · have behind : allBlank returns = true := by
        apply List.all_eq_true.mpr
        intro d member
        rw [only d member]
        rfl
      rw [codeExit] at closed
      exact Or.inr ⟨by rw [blankAppend, blank, behind]; rfl, closed⟩

theorem standsLoose {origin : Origin} {source : List Char} {f : Finding}
    (stands : StandsInCode origin source f) : Loose (lines source) f := by
  obtain ⟨above, before, c, kept, after, below, parts, number, column, body, shown, leads, ends⟩ :=
    standsParts stands
  refine ⟨above.length, before.length, visible (f.content.toList ++ after), number, column, ?_, ?_⟩
  · refine ⟨before ++ f.content.toList ++ after, c, by simp [parts], by simp [body], shown, ?_, ?_⟩
    · have around : (before ++ f.content.toList ++ after).take before.length = before := by
        rw [List.append_assoc, List.take_left]
      rwa [parts, List.take_left, around]
    · rw [List.append_assoc, List.drop_left]
  · rcases ends with code | ⟨blank, closed⟩
    · exact Or.inl code
    · rw [visibleAppend, visibleNone.mpr blank]
      exact Or.inr ⟨Nat.le_refl _, closed⟩

theorem standsUnique {origin : Origin} {source : List Char} {f g : Finding}
    (left : StandsInCode origin source f) (right : StandsInCode origin source g)
    (sameLine : f.lineNumber = g.lineNumber) (sameColumn : f.column = g.column) : f = g := by
  obtain ⟨row, inside, m, recognised, spelled, _, found, _⟩ := left
  obtain ⟨row', inside', m', recognised', spelled', _, found', _⟩ := right
  obtain ⟨_, _, tells⟩ := Row.spelledTells spelled found
  obtain ⟨_, _, tells'⟩ := Row.spelledTells spelled' found'
  have numbers : row.number = row'.number := by
    have := tells.lineNumber
    have := tells'.lineNumber
    omega
  obtain rfl := rowUnique inside inside' numbers
  have anchors : row.anchor m = row.anchor m' := by
    have := tells.column
    have := tells'.column
    omega
  obtain rfl := Row.anchorUnique recognised recognised' anchors
  exact Option.some.inj (found.symm.trans found')

theorem cutStrict {origin : Origin} {source : List Char} {findings : List Finding}
    (stand : ∀ f ∈ findings, StandsInCode origin source f) (distinct : findings.Nodup) :
    (findings.mergeSort notBefore).Pairwise (fun f g =>
      g.lineNumber < f.lineNumber ∨ (g.lineNumber = f.lineNumber ∧ g.column < f.column)) := by
  have perm := List.mergeSort_perm findings notBefore
  have apart : (findings.mergeSort notBefore).Pairwise (· ≠ ·) := perm.nodup_iff.mpr distinct
  refine ((cutOrder findings).and apart).imp_of_mem ?_
  intro f g left right both
  obtain ⟨order, other⟩ := both
  have places : f.lineNumber = g.lineNumber → f.column ≠ g.column := fun line column =>
    other (standsUnique (stand f (perm.mem_iff.mp left)) (stand g (perm.mem_iff.mp right)) line column)
  omega

theorem clearTextBalancedIff (source : List Char) (findings : List Finding) :
    Balanced (clearText source findings) ↔
      braceDepth 0 (braceStream {} (fromLines (lines source) findings).lines) = some 0 := by
  have closed : ∀ line ∈ lines source, '\n' ∉ line := fun line member => lineClosed member
  rw [Balanced, balanceIff, clearText, linesUnlines (fromLinesClosed findings closed)]
  split
  · rename_i empty
    rw [empty]
    rfl
  · rfl

theorem clearOneBalancedIff {origin : Origin} {source : List Char} {f : Finding}
    (balanced : Balanced source) (stands : StandsInCode origin source f) :
    Balanced (clearText source [f]) ↔ EvenBraces f := by
  obtain ⟨above, before, c, kept, after, below, parts, number, column, _, _, leads, ends⟩ :=
    standsParts stands
  have result := @removeStanding { lines := lines source } f _ _ _ _ parts number column
  rw [clearTextBalancedIff, fromLines, List.mergeSort_singleton, List.foldl_cons, List.foldl_nil, result]
  rw [Balanced, balanceIff, parts] at balanced
  exact cutBalancedIff leads ends balanced

theorem clearingKeepsBalanceIff {origin : Origin} {source : List Char} {chosen : List Finding}
    (balanced : Balanced source) (stand : ∀ f ∈ chosen, StandsInCode origin source f) :
    (∀ picked : List Finding, picked.Nodup → picked ⊆ chosen → Balanced (clearText source picked)) ↔
      ∀ f ∈ chosen, EvenBraces f := by
  constructor
  · intro all f member
    apply (clearOneBalancedIff balanced (stand f member)).mp
    exact all [f] (List.nodup_singleton f) (by simpa using member)
  · intro even picked distinct inside
    have perm := List.mergeSort_perm picked notBefore
    have stand' : ∀ f ∈ picked, StandsInCode origin source f := fun f member => stand f (inside member)
    rw [clearTextBalancedIff]
    apply foldBalanced (cutStrict stand' distinct)
    · exact fun f member => standsLoose (stand' f (perm.mem_iff.mp member))
    · exact fun f member => even f (inside (perm.mem_iff.mp member))
    · exact (balanceIff source).mp balanced

def dumpsInBlock : List Char := "if ($x) \x7b dd(1); exit; echo 2; // \x7b\n \x7d".toList

theorem dumpsInBlockClear :
    (text ⟨"/w/a.php", "a.php"⟩ dumpsInBlock).length = 2 ∧
      Balanced (clearText dumpsInBlock (text ⟨"/w/a.php", "a.php"⟩ dumpsInBlock)) := by
  refine ⟨by decide +kernel, ?_⟩
  have every := @clearingKeepsBalanceIff ⟨"/w/a.php", "a.php"⟩ dumpsInBlock
    (text ⟨"/w/a.php", "a.php"⟩ dumpsInBlock) (by decide +kernel) (by decide +kernel)
  exact every.mpr (by decide +kernel) _ (by decide +kernel) (List.Subset.refl _)

def haltInBlock : List Char := "var_dump($x); if ($stop) \x7b exit; \x7d".toList

-- The halt stands in a block of its own, whose brace is cleared with the statement before it.
theorem haltInBlockUnbalances :
    Balanced haltInBlock ∧
    ¬ ∀ picked : List Finding, picked.Nodup → picked ⊆ text ⟨"/w/a.php", "a.php"⟩ haltInBlock →
      Balanced (clearText haltInBlock picked) := by
  refine ⟨by decide +kernel, ?_⟩
  intro all
  exact absurd (all _ (by decide +kernel) (List.Subset.refl _)) (by decide +kernel)

end DebugSweep.Clear
