import DebugSweep.Proofs.Anchors
import DebugSweep.Proofs.Residue

/-! Lines that their statements are cut out of. Main statement: the code of what is left is what is left
of the code, so no statement is recognised in it. -/
namespace DebugSweep.Lexis
open Text

theorem segmentEnds {code : List Char} {g : Segment} (member : g ∈ segments code) :
    code[g.stop]? = some ';' := by
  obtain ⟨early, late, split⟩ := List.append_of_mem member
  have runs : Cutter.run {} code = [].reverse ++ (early ++ g :: late) := split
  obtain ⟨u, v, rfl, _, _, done, _⟩ := Cutter.cutsOff runs
  obtain ⟨rfl, -⟩ := List.cons.inj done
  show (u ++ ';' :: v)[(Cutter.through {} (';' :: v) u).offset]? = some ';'
  rw [Cutter.throughOffset]
  simp

theorem keptBefore {offset i k : Nat} {line : List Char} {classes : List CharClass} {c : Char}
    (found : (kept offset line classes)[i]? = some (offset + k, c)) :
    (kept offset line classes).take i = kept offset (line.take k) (classes.take k) := by
  induction line generalizing offset classes i k with
  | nil => simp [kept] at found
  | cons d line ih =>
    cases classes with
    | nil => simp [kept] at found
    | cons cls classes =>
      have later : ∀ {i}, (kept (offset + 1) line classes)[i]? = some (offset + k, c) →
          ∃ k', k = k' + 1 ∧
            (kept (offset + 1) line classes).take i = kept (offset + 1) (line.take k') (classes.take k') := by
        intro i inside
        obtain ⟨k', same, _⟩ := keptMember.mp (List.mem_of_getElem? inside)
        obtain rfl : k = k' + 1 := by omega
        exact ⟨k', rfl, ih (by rwa [Nat.add_assoc, Nat.add_comm 1])⟩
      simp only [kept] at found ⊢
      split at found
      · rename_i code
        rw [if_pos code]
        cases i with
        | zero =>
          obtain rfl : k = 0 := by simpa using congrArg (Option.map Prod.fst) found
          simp [kept]
        | succ i =>
          obtain ⟨k', rfl, front⟩ := later found
          simp [kept, code, front]
      · rename_i other
        rw [if_neg other]
        obtain ⟨k', rfl, front⟩ := later found
        simp [kept, other, front]

end DebugSweep.Lexis

namespace DebugSweep.Scan.Row
open Lexis Text

theorem statementsMerged {r : Row} (some : r.statements ≠ []) : r.statements = merge (segments r.code.text) := by
  unfold statements at some ⊢
  split
  · rfl
  · rename_i plain
    rw [if_neg plain] at some
    contradiction

section
variable {r : Row} {m : Merged}

theorem memberMerged (member : m ∈ r.statements) : m ∈ merge (segments r.code.text) := by
  rwa [← statementsMerged (List.ne_nil_of_mem member)]

theorem statementsApart (r : Row) :
    r.statements.Pairwise (fun a b => a.last.stop < b.segment.leading) := by
  have follow : r.statements.Pairwise (fun a b => a.last.stop < b.segment.start) := by
    unfold statements
    split
    · exact mergeFollow (segmentsFollow _)
    · exact List.Pairwise.nil
  refine follow.imp_of_mem ?_
  intro a b _ right less
  have := leadingInside (statementLies right).1 (statementLies right).2
  omega

theorem lastBounds (member : m ∈ r.statements) :
    m.segment.leading ≤ m.last.stop ∧ m.last.Lies r.code.text := by
  have inside := memberMerged member
  have lies := segmentsLie r.code.text
  have order := mergeOrder (fun g known => (lies g known).order) (segmentsFollow _) inside
  have bounds := leadingInside (statementLies member).1 (statementLies member).2
  exact ⟨by omega, lies m.last (mergeLast inside)⟩

structure Aligned (r : Row) (place index : Nat) : Prop where
  leads : r.state.mode.LeadsToCode (r.line.take place)
  live : r.state.mode.live none (r.line.take place) = r.code.text.take index
  inside : index ≤ r.code.text.length

theorem liveBefore {i o : Nat} {c : Char} (found : r.code.chars[i]? = some (o, c)) :
    r.state.mode.live (some c) (r.line.take o) = r.code.text.take i := by
  obtain ⟨here, -⟩ := codeMember.mp (List.mem_of_getElem? found)
  have inside := (List.getElem?_eq_some_iff.mp here).1
  have split : r.line = r.line.take o ++ c :: r.line.drop (o + 1) := splitHere here
  have size : (r.line.take o).length = o := by simp; omega
  have classes : r.classes.take o = r.state.mode.classes (some c) (r.line.take o) := by
    have whole := r.classesRead
    rw [split, classesAppend] at whole
    rw [whole]
    exact List.take_left' (by rw [classesLength, size])
  have front : r.code.chars.take i = kept 0 (r.line.take o) (r.classes.take o) := by
    have chars := codeChars r.line r.state
    change r.code.chars = kept 0 r.line r.classes at chars
    rw [chars] at found ⊢
    exact keptBefore (by rwa [Nat.zero_add])
  rw [CodeLine.text, ← List.map_take, front, classes, keptLive]

theorem anchorAligned (member : m ∈ r.statements) : r.Aligned (r.anchor m) m.segment.leading := by
  obtain ⟨c, found⟩ := anchorChar member
  have leads := anchorLeads member
  refine ⟨leads, ?_, ?_⟩
  · rw [leadsToCodeLive leads none (some c), liveBefore found]
  · have := lastBounds member
    have := this.2.inside
    omega

theorem lastChar (member : m ∈ r.statements) :
    r.code.chars[m.last.stop]? = some (r.code.rawOffset m.last.stop, ';') := by
  have here := segmentEnds (mergeLast (memberMerged member))
  rw [CodeLine.text, List.getElem?_map] at here
  obtain ⟨⟨o, c⟩, found, same⟩ := Option.map_eq_some_iff.mp here
  obtain rfl : c = ';' := same
  rw [found, rawOffsetAt found]

theorem alignedBehind {i o : Nat} {c : Char} (found : r.code.chars[i]? = some (o, c)) (plain : c ≠ '/') :
    r.Aligned (o + 1) (i + 1) := by
  obtain ⟨here, live⟩ := codeMember.mp (List.mem_of_getElem? found)
  change r.classes[o]? = some .code at live
  have front : r.line.take (o + 1) = r.line.take o ++ [c] := takeHere here
  have split : r.line.drop o = c :: r.line.drop (o + 1) := dropHere here
  obtain ⟨size, around⟩ := codeAround live
  rw [split] at around
  obtain ⟨d, tail, same, reached⟩ := codeReached around
  obtain ⟨rfl, -⟩ := List.cons.inj same
  have code : ∀ next, Mode.step .code c next = (.code, .code) := by
    have first := congrArg List.head? (classesBehind live)
    rw [List.head?_drop, live, split] at first
    have stays := (codeStepIff _ _).mp (Option.some.inj first).symm
    intro next
    rw [stepToCode stays (fun slash => plain slash.2) next]
    exact Prod.ext (Option.some.inj first).symm stays
  refine ⟨?_, ?_, ?_⟩
  · intro next
    rw [front, afterAppend, List.head?_cons, Option.some_or, reached, Mode.after, code]
    rfl
  · have text : r.code.text[i]? = some c := by rw [CodeLine.text, List.getElem?_map, found]; rfl
    rw [front, liveAppend, List.head?_cons, Option.some_or, reached, liveBefore found, takeHere text, liveOne, code,
      if_pos rfl]
  · rw [CodeLine.text, List.length_map]
    exact (List.getElem?_eq_some_iff.mp found).1

theorem lastAligned (member : m ∈ r.statements) :
    r.Aligned (r.code.rawOffset m.last.stop + 1) (m.last.stop + 1) :=
  alignedBehind (lastChar member) (by decide)

theorem Aligned.between {place index place' index' : Nat} (first : r.Aligned place index)
    (second : r.Aligned place' index') (order : place ≤ place') :
    Mode.code.LeadsToCode ((r.line.take place').drop place) ∧
      Mode.code.live none ((r.line.take place').drop place) = (r.code.text.take index').drop index := by
  have split : r.line.take place' = r.line.take place ++ (r.line.take place').drop place := by
    conv_lhs => rw [← List.take_append_drop place (r.line.take place'), List.take_take, Nat.min_eq_left order]
  have parts := leadsToCodeAppend first.leads
  constructor
  · intro next
    rw [← (parts next _).2, ← split]
    exact second.leads next
  · have live := (parts none ((r.line.take place').drop place)).1
    rw [← split, second.live, first.live] at live
    rw [live]
    exact (List.drop_left' (by simp [first.inside])).symm

theorem Aligned.behind {place index : Nat} (aligned : r.Aligned place index) :
    Mode.code.live none (r.line.drop place) = r.code.text.drop index ∧
      Mode.code.after none (r.line.drop place) = r.state.mode.after none r.line := by
  have parts := leadsToCodeAppend aligned.leads none (r.line.drop place)
  rw [List.take_append_drop] at parts
  refine ⟨?_, parts.2.symm⟩
  have live := parts.1
  rw [← codeText, aligned.live] at live
  have whole : (r.code.text.take index ++ Mode.code.live none (r.line.drop place)).drop index =
      r.code.text.drop index := by rw [← live]; rfl
  rw [← whole]
  exact (List.drop_left' (by simp [aligned.inside])).symm

def reach (r : Row) (m : Merged) : Nat × Nat := (r.anchor m, r.code.rawOffset m.last.stop + 1)

theorem reachOrder {a b : Merged} (left : a ∈ r.statements) (right : b ∈ r.statements)
    (less : a.last.stop < b.segment.leading) : (r.reach a).2 ≤ (r.reach b).1 := by
  obtain ⟨c, found⟩ := anchorChar right
  exact (offsetOrder (lastChar left) found).mp less

theorem reachInside (member : m ∈ r.statements) :
    (r.reach m).1 < (r.reach m).2 ∧ (r.reach m).2 ≤ r.line.length := by
  obtain ⟨c, found⟩ := anchorChar member
  have last := lastChar member
  have bounds := (lastBounds member).1
  have inside := (List.getElem?_eq_some_iff.mp (codeMember.mp (List.mem_of_getElem? last)).1).1
  have order := offsetOrder last found
  show r.anchor m < r.code.rawOffset m.last.stop + 1 ∧ r.code.rawOffset m.last.stop + 1 ≤ r.line.length
  omega

-- The induction is on the statements that stand from a place on.
theorem liveCutOut {ms : List Merged} {place index : Nat} (members : ∀ m ∈ ms, m ∈ r.statements)
    (apart : ms.Pairwise (fun a b => a.last.stop < b.segment.leading))
    (aligned : r.Aligned place index) (front : ∀ m ∈ ms, place ≤ r.anchor m) :
    Mode.code.live none (cutOut r.line place (ms.map r.reach)) =
        cutOut r.code.text index (ms.map Merged.extent) ∧
      Mode.code.after none (cutOut r.line place (ms.map r.reach)) = r.state.mode.after none r.line := by
  induction ms generalizing place index with
  | nil => exact aligned.behind
  | cons m rest ih =>
    have here := members m List.mem_cons_self
    have others : ∀ m' ∈ rest, m' ∈ r.statements := fun m' member => members m' (List.mem_cons_of_mem _ member)
    obtain ⟨first, apart⟩ := List.pairwise_cons.mp apart
    obtain ⟨leads, live⟩ := aligned.between (anchorAligned here) (front m List.mem_cons_self)
    obtain ⟨rest', exit⟩ := ih others apart (lastAligned here)
      (fun m' member => reachOrder here (others m' member) (first m' member))
    have parts := leadsToCodeAppend leads none
      (cutOut r.line (r.code.rawOffset m.last.stop + 1) (rest.map r.reach))
    rw [live, rest', exit] at parts
    exact parts

def left (r : Row) : List Char := cutOut r.line 0 (r.statements.map r.reach)

theorem leftRead (r : Row) :
    r.state.mode.live none r.left = cutOut r.code.text 0 (r.statements.map Merged.extent) ∧
      r.state.mode.after none r.left = r.state.mode.after none r.line := by
  unfold left
  cases listed : r.statements with
  | nil => exact ⟨(codeText r.line r.state).symm, rfl⟩
  | cons m rest =>
    have members : ∀ m' ∈ m :: rest, m' ∈ r.statements := by simp [listed]
    have apart := r.statementsApart
    rw [listed] at apart
    obtain ⟨first, apart⟩ := List.pairwise_cons.mp apart
    have here := members m List.mem_cons_self
    have others : ∀ m' ∈ rest, m' ∈ r.statements := fun m' member => members m' (List.mem_cons_of_mem _ member)
    obtain ⟨live, exit⟩ := liveCutOut others apart (lastAligned here)
      (fun m' member => reachOrder here (others m' member) (first m' member))
    have aligned := anchorAligned here
    have parts := leadsToCodeAppend aligned.leads none
      (cutOut r.line (r.code.rawOffset m.last.stop + 1) (rest.map r.reach))
    rw [aligned.live, live, exit] at parts
    exact parts

theorem leftQuiet {r : Row} (tags : TagsKept r.code.text r.statements) (number : Nat) :
    statements ⟨number, r.left, r.state⟩ = [] := by
  by_cases some : r.statements = []
  · have same : r.left = r.line := by
      unfold left
      rw [some]
      rfl
    rw [same]
    exact some
  · have merged := statementsMerged some
    have code : (codeOf r.left r.state).text =
        cutOut r.code.text 0 ((merge (segments r.code.text)).map Merged.extent) := by
      rw [codeText, r.leftRead.1, merged]
    rw [merged] at tags
    have none := mergeNone.mpr (residueQuiet tags)
    rw [← code] at none
    unfold statements
    split
    · exact none
    · rfl

end
end DebugSweep.Scan.Row
