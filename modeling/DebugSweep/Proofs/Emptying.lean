import DebugSweep.Proofs.Clearing
import DebugSweep.Proofs.Endings
import DebugSweep.Proofs.Trimming

/-! Texts that all their findings are cut out of. Main statements: if every statement is located where
it was recognised, each finding is cut out and none is stale, and if tags are read as before, nothing
is found in what is left. -/
namespace DebugSweep
open Lexis Text Scan

namespace Scan.Row

def Exact (r : Row) (m : Merged) : Prop := locate? r.line r.code m = some (r.reach m)

instance (r : Row) (m : Merged) : Decidable (r.Exact m) := inferInstanceAs (Decidable (_ = _))

structure Reports (r : Row) (m : Merged) (f : Finding) : Prop where
  lineNumber : f.lineNumber = r.number
  column : f.column = (r.reach m).1
  content : f.content.toList = (r.line.take (r.reach m).2).drop (r.reach m).1
  visible : allBlank f.content.toList = false

section
variable {r : Row} {m : Merged} {origin : Origin}

theorem reachEnds (member : m ∈ r.statements) :
    ∃ front, (r.line.take (r.reach m).2).drop (r.reach m).1 = front ++ [';'] := by
  have bounds := reachInside member
  obtain ⟨here, -⟩ := codeMember.mp (List.mem_of_getElem? (lastChar member))
  obtain ⟨inside, isHere⟩ := List.getElem?_eq_some_iff.mp here
  refine ⟨(r.line.take (r.code.rawOffset m.last.stop)).drop (r.reach m).1, ?_⟩
  unfold reach at bounds ⊢
  rw [List.take_succ_eq_append_getElem inside, isHere, List.drop_append_of_le_length (by simp; omega)]

theorem exactReports (member : m ∈ r.statements) (exact : r.Exact m) :
    ∃ f, finding? origin r.number r.line r.code m = some f ∧ r.Reports m f := by
  have token := locateSource exact
  obtain ⟨_, f, found, _⟩ := findingLocated origin r.number token
  obtain ⟨start, stop, located, tells⟩ := findingSource found
  rw [exact] at located
  obtain ⟨rfl, rfl⟩ := Prod.mk.inj (Option.some.inj located)
  obtain ⟨c, kept, tail, body, visible, blank, shown⟩ :=
    contentStands tells (reachInside member).1 (locateTokenFound token).2
  change (r.line.take (r.reach m).2).drop (r.reach m).1 = _ at shown
  obtain ⟨front, ends⟩ := reachEnds member
  have none : tail = [] := by
    rcases List.eq_nil_or_concat' tail with empty | ⟨blanks, d, rfl⟩
    · exact empty
    · -- The semicolon would be a blank.
      rw [ends, ← List.append_assoc] at shown
      obtain ⟨rfl⟩ := (List.append_inj' shown rfl).2
      exact absurd (List.all_eq_true.mp blank ';' (by simp)) (by decide)
  rw [none, List.append_nil] at shown
  refine ⟨f, found, tells.lineNumber, tells.column, shown.symm, ?_⟩
  rw [body, allBlank, List.all_cons, visible, Bool.false_and]

end
end Scan.Row

namespace Clear

theorem removeCleared {cut : Cut} {g : Finding} {above below : List (List Char)} {before after : List Char}
    (parts : cut.lines = above ++ (before ++ g.content.toList ++ after) :: below)
    (number : g.lineNumber = above.length + 1) (column : g.column = before.length) :
    cut.remove g = ⟨above ++ remains (before ++ after) ++ below, cut.cleared + 1, cut.stale⟩ := by
  have left := removeStanding parts number column
  have here : standsAt g.content.toList g.column (before ++ g.content.toList ++ after) = true := by
    rw [column, standsAtNat]
    exact ⟨by simp, after, by simp⟩
  have index : g.lineNumber - 1 = (above.length : Int) := by omega
  have found : cut.lines[above.length]? = some (before ++ g.content.toList ++ after) := by simp [parts]
  rw [← left]
  simp only [Cut.remove, index, Int.toNat_natCast, found]
  rw [if_neg (by omega)]
  dsimp only
  rw [if_pos here]

theorem cutOutFrom {α : Type} {items : List α} {start : Nat} {cuts : List (Nat × Nat)}
    (front : ∀ cut ∈ cuts, start ≤ cut.1) :
    cutOut items 0 cuts = items.take start ++ cutOut items start cuts := by
  cases cuts with
  | nil => exact (List.take_append_drop start items).symm
  | cons cut rest =>
    have order := front cut List.mem_cons_self
    show items.take cut.1 ++ _ = _
    rw [cutOut, ← List.append_assoc]
    congr 1
    conv_lhs => rw [← List.take_append_drop start (items.take cut.1), List.take_take, Nat.min_eq_left order]

theorem cutOutSubset {α : Type} (items : List α) (start : Nat) (cuts : List (Nat × Nat)) :
    cutOut items start cuts ⊆ items := by
  induction cuts generalizing start with
  | nil => exact List.drop_subset _ _
  | cons cut rest ih =>
    refine List.append_subset_of_subset_of_subset ?_ (ih _)
    exact fun c member => List.take_subset _ _ (List.drop_subset _ _ member)

theorem reportsStand {r : Row} {m : Merged} {f : Finding} {cuts : List (Nat × Nat)} (member : m ∈ r.statements)
    (reports : r.Reports m f) (behind : ∀ cut ∈ cuts, (r.reach m).2 ≤ cut.1) :
    cutOut r.line 0 cuts =
      r.line.take (r.reach m).1 ++ f.content.toList ++ cutOut r.line (r.reach m).2 cuts := by
  have bounds := Row.reachInside member
  have front : r.line.take (r.reach m).2 = r.line.take (r.reach m).1 ++ f.content.toList := by
    conv_lhs => rw [← List.take_append_drop (r.reach m).1 (r.line.take (r.reach m).2), List.take_take,
      Nat.min_eq_left (Nat.le_of_lt bounds.1), ← reports.content]
  rw [cutOutFrom behind, front]

def leftLines (r : Row) (returns : List Char) (ms : List Merged) : List (List Char) :=
  if ms = [] then [r.line ++ returns] else remains (cutOut r.line 0 (ms.map r.reach) ++ returns)

theorem leftVisible {r : Row} {returns : List Char} {ms : List Merged}
    (visible : allBlank (cutOut r.line 0 (ms.map r.reach)) = false) :
    leftLines r returns ms = [cutOut r.line 0 (ms.map r.reach) ++ returns] := by
  unfold leftLines
  split
  · rename_i empty
    rw [empty]
    rfl
  · exact remainsVisible (by rw [blankAppend, visible, Bool.false_and])

-- The induction is on the statements of a line; the last of them is cut out first.
theorem foldRow {origin : Origin} {r : Row} {returns : List Char} {ms : List Merged} {cut : Cut}
    {above below : List (List Char)} (members : ∀ m ∈ ms, m ∈ r.statements)
    (apart : ms.Pairwise (fun a b => a.last.stop < b.segment.leading)) (exact : ∀ m ∈ ms, r.Exact m)
    (parts : cut.lines = above ++ (r.line ++ returns) :: below) (number : r.number = above.length + 1) :
    (ms.filterMap (finding? origin r.number r.line r.code)).foldr (fun f cut => cut.remove f) cut =
      ⟨above ++ leftLines r returns ms ++ below, cut.cleared + ms.length, cut.stale⟩ := by
  induction ms with
  | nil => simp [leftLines, parts.symm]
  | cons m rest ih =>
    have here := members m List.mem_cons_self
    have others : ∀ m' ∈ rest, m' ∈ r.statements := fun m' member => members m' (List.mem_cons_of_mem _ member)
    obtain ⟨first, apart⟩ := List.pairwise_cons.mp apart
    obtain ⟨f, found, reports⟩ := @Row.exactReports r m origin here (exact m List.mem_cons_self)
    have behind : ∀ cut ∈ rest.map r.reach, (r.reach m).2 ≤ cut.1 := by
      intro cut member
      obtain ⟨m', inside, rfl⟩ := List.mem_map.mp member
      exact Row.reachOrder here (others m' inside) (first m' inside)
    have stands := reportsStand here reports behind
    have visible : allBlank (cutOut r.line 0 (rest.map r.reach)) = false := by
      rw [stands, blankAppend, blankAppend, reports.visible, Bool.and_false, Bool.false_and]
    have size : (r.line.take (r.reach m).1).length = (r.reach m).1 := by
      have bounds := Row.reachInside here
      rw [List.length_take]
      omega
    have next := ih others apart (fun m' member => exact m' (List.mem_cons_of_mem _ member))
    rw [leftVisible visible, stands, List.append_assoc _ _ returns, List.append_assoc above,
      List.singleton_append] at next
    rw [List.filterMap_cons_some found, List.foldr_cons, next,
      removeCleared rfl (by rw [reports.lineNumber, number]; rfl) (by rw [reports.column, size])]
    simp only [leftLines, List.map_cons, cutOut, List.drop_zero, List.append_assoc, List.length_cons,
      reduceCtorEq, if_false, Nat.add_assoc]

theorem findingsCounted {r : Row} (origin : Origin) (exact : ∀ m ∈ r.statements, r.Exact m) :
    (r.findings origin).length = r.statements.length := by
  have every : ∀ ms : List Merged, (∀ m ∈ ms, m ∈ r.statements) →
      (ms.filterMap (finding? origin r.number r.line r.code)).length = ms.length := by
    intro ms members
    induction ms with
    | nil => rfl
    | cons m rest ih =>
      have here := members m List.mem_cons_self
      obtain ⟨f, found, -⟩ := @Row.exactReports r m origin here (exact m here)
      rw [List.filterMap_cons_some found, List.length_cons, List.length_cons,
        ih (fun m' member => members m' (List.mem_cons_of_mem _ member))]
  exact every r.statements (fun _ member => member)

theorem clearRow {origin : Origin} {r : Row} {returns : List Char} {cut : Cut} {above below : List (List Char)}
    (exact : ∀ m ∈ r.statements, r.Exact m) (parts : cut.lines = above ++ (r.line ++ returns) :: below)
    (number : r.number = above.length + 1) :
    (r.findings origin).foldr (fun f cut => cut.remove f) cut =
      ⟨above ++ leftLines r returns r.statements ++ below, cut.cleared + (r.findings origin).length, cut.stale⟩ := by
  rw [findingsCounted origin exact]
  exact foldRow (fun _ member => member) r.statementsApart exact parts number

def leftFrom (number : Nat) (state : LineState) : List (List Char) → List (List Char)
  | [] => []
  | raw :: rest =>
      let r : Row := ⟨number, dropEnd '\r' raw, state⟩
      leftLines r (raw.drop r.line.length) r.statements ++
        leftFrom (number + 1) (classify r.line state).exit rest

-- The induction is on the lines; the last of them is cleared first.
theorem foldRows {origin : Origin} {raws : List (List Char)} {number : Nat} {state : LineState} {cut : Cut}
    {above : List (List Char)} (exact : ∀ r ∈ rowsFrom number state raws, ∀ m ∈ r.statements, r.Exact m)
    (parts : cut.lines = above ++ raws) (start : number = above.length + 1) :
    ((rowsFrom number state raws).flatMap (Row.findings origin)).foldr (fun f cut => cut.remove f) cut =
      ⟨above ++ leftFrom number state raws,
        cut.cleared + ((rowsFrom number state raws).flatMap (Row.findings origin)).length, cut.stale⟩ := by
  induction raws generalizing number state above with
  | nil => simp [rowsFrom, leftFrom, ← parts]
  | cons raw rest ih =>
    rw [rowsFrom, List.flatMap_cons, List.foldr_append]
    have below := @ih (number + 1) (classify (dropEnd '\r' raw) state).exit (above ++ [raw])
      (fun r member => exact r (List.mem_cons_of_mem _ member)) (by rw [parts]; simp) (by simp [start])
    have here : above ++ [raw] ++ leftFrom (number + 1) (classify (dropEnd '\r' raw) state).exit rest =
        above ++ (dropEnd '\r' raw ++ raw.drop (dropEnd '\r' raw).length) ::
          leftFrom (number + 1) (classify (dropEnd '\r' raw) state).exit rest := by
      rw [(returnsBehind raw).1, List.append_assoc, List.singleton_append]
    rw [below, clearRow (exact _ List.mem_cons_self) here start, leftFrom, List.length_append,
      List.append_assoc above, Nat.add_assoc, Nat.add_comm (List.length _)]

theorem findingsRising {origin : Origin} {source : List Char}
    (exact : ∀ r ∈ rows source, ∀ m ∈ r.statements, r.Exact m) :
    (text origin source).Pairwise (fun a b =>
      a.lineNumber < b.lineNumber ∨ (a.lineNumber = b.lineNumber ∧ a.column < b.column)) := by
  have reports : ∀ {r : Row}, r ∈ rows source → ∀ {m f}, m ∈ r.statements →
      finding? origin r.number r.line r.code m = some f → r.Reports m f := by
    intro r inside m f member found
    obtain ⟨f', found', reports⟩ := @Row.exactReports r m origin member (exact r inside m member)
    obtain rfl := Option.some.inj (found.symm.trans found')
    exact reports
  rw [textRows, List.pairwise_flatMap]
  constructor
  · intro r inside
    refine List.pairwise_filterMap.mpr (r.statementsApart.imp_of_mem ?_)
    intro a b left right less f found g found'
    have first := reports inside left found
    have second := reports inside right found'
    have order := Row.reachOrder left right less
    have bounds := Row.reachInside left
    rw [first.lineNumber, second.lineNumber, first.column, second.column]
    omega
  · refine (rowsRising source).imp_of_mem ?_
    intro a b left right less f member g member'
    obtain ⟨m, inside, found⟩ := List.mem_filterMap.mp member
    obtain ⟨m', inside', found'⟩ := List.mem_filterMap.mp member'
    rw [(reports left inside found).lineNumber, (reports right inside' found').lineNumber]
    omega

theorem fallingOrder {findings : List Finding} (rising : findings.Pairwise (fun a b =>
      a.lineNumber < b.lineNumber ∨ (a.lineNumber = b.lineNumber ∧ a.column < b.column))) :
    findings.mergeSort notBefore = findings.reverse := by
  have perm := List.mergeSort_perm findings notBefore
  have apart : (findings.mergeSort notBefore).Pairwise (fun a b =>
      ¬ (a.lineNumber = b.lineNumber ∧ a.column = b.column)) := by
    refine (perm.pairwise_iff ?_).mpr (rising.imp (by omega))
    intro a b other same
    exact other ⟨same.1.symm, same.2.symm⟩
  refine List.Perm.eq_of_pairwise ?_ (((cutOrder findings).and apart).imp ?_) (List.pairwise_reverse.mpr rising)
    (perm.trans (List.reverse_perm findings).symm)
  · intro a b _ _ first second
    omega
  · intro a b both
    omega

theorem fromLinesExact {origin : Origin} {source : List Char}
    (exact : ∀ r ∈ rows source, ∀ m ∈ r.statements, r.Exact m) :
    fromLines (lines source) (text origin source) =
      ⟨leftFrom 1 {} (lines source), (text origin source).length, 0⟩ := by
  rw [fromLines, fallingOrder (findingsRising exact), List.foldl_reverse, textRows]
  have whole := @foldRows origin (lines source) 1 {} { lines := lines source } [] exact rfl rfl
  rw [List.nil_append, Nat.zero_add] at whole
  exact whole

theorem leftLinesCases (r : Row) (returns : List Char) :
    (r.statements = [] ∧ leftLines r returns r.statements = [r.line ++ returns]) ∨
      leftLines r returns r.statements = remains (r.left ++ returns) := by
  unfold leftLines
  split
  · rename_i empty
    exact .inl ⟨empty, rfl⟩
  · exact .inr rfl

theorem leftPlain {r : Row} (plain : '\r' ∉ r.line) : '\r' ∉ r.left :=
  fun member => plain (cutOutSubset _ _ _ member)

theorem modeExit {state : LineState} (known : state = {} ∨ state = { inBlockComment := true }) :
    state.mode.exit = state := by
  rcases known with rfl | rfl <;> rfl

theorem leftRow {raw : List Char} {below : List (List Char)} {number : Nat} {state : LineState}
    (known : state = {} ∨ state = { inBlockComment := true }) (plain : '\r' ∉ dropEnd '\r' raw)
    (tags : TagsKept (Row.mk number (dropEnd '\r' raw) state).code.text
      (Row.mk number (dropEnd '\r' raw) state).statements)
    (next : ∀ number', ∀ r ∈ rowsFrom number' (classify (dropEnd '\r' raw) state).exit below, r.statements = [])
    (number' : Nat) :
    ∀ r ∈ rowsFrom number' state (leftLines ⟨number, dropEnd '\r' raw, state⟩
      (raw.drop (dropEnd '\r' raw).length) (Row.mk number (dropEnd '\r' raw) state).statements ++ below),
      r.statements = [] := by
  generalize here : Row.mk number (dropEnd '\r' raw) state = row at tags
  obtain ⟨line, inherits⟩ : row.line = dropEnd '\r' raw ∧ row.state = state := by rw [← here]; exact ⟨rfl, rfl⟩
  have exit : (classify (dropEnd '\r' raw) state).exit = (state.mode.after none row.left).exit := by
    rw [classifyReads, ← line, ← inherits, row.leftRead.2]
  obtain ⟨whole, only⟩ := returnsBehind raw
  rcases leftLinesCases row (raw.drop (dropEnd '\r' raw).length) with ⟨empty, same⟩ | same
  · rw [same, line, whole]
    intro r member
    rcases List.mem_cons.mp member with rfl | inside
    · rw [← here] at empty
      exact empty
    · exact next _ r inside
  · rw [same]
    unfold remains
    split
    · rename_i blank
      rw [blankAppend, Bool.and_eq_true] at blank
      have stays : (classify (dropEnd '\r' raw) state).exit = state := by
        rw [exit, blanksExit blank.1 (stateFits state _), modeExit known]
      rw [stays] at next
      exact next _
    · have front : dropEnd '\r' (row.left ++ raw.drop (dropEnd '\r' raw).length) = row.left :=
        dropEndPlain (leftPlain (line ▸ plain)) only
      intro r member
      rw [List.singleton_append, rowsFrom, front] at member
      rcases List.mem_cons.mp member with rfl | inside
      · rw [← inherits]
        exact Row.leftQuiet tags number'
      · refine next (number' + 1) r ?_
        rwa [exit, ← codeExit]

theorem leftQuietFrom {raws : List (List Char)} {number number' : Nat} {state : LineState}
    (known : state = {} ∨ state = { inBlockComment := true }) (plain : ReturnsLast raws)
    (tags : ∀ r ∈ rowsFrom number state raws, TagsKept r.code.text r.statements) :
    ∀ r ∈ rowsFrom number' state (leftFrom number state raws), r.statements = [] := by
  induction raws generalizing number number' state with
  | nil => simp [leftFrom, rowsFrom]
  | cons raw rest ih =>
    have behind : (classify (dropEnd '\r' raw) state).exit = {} ∨
        (classify (dropEnd '\r' raw) state).exit = { inBlockComment := true } := by
      rw [classifyReads]
      exact exitCases _
    apply leftRow known (lastReturns (plain raw List.mem_cons_self)).1 (tags _ List.mem_cons_self)
    intro number'
    apply ih behind
    · exact fun raw' member => plain raw' (List.mem_cons_of_mem _ member)
    · exact fun r member => tags r (List.mem_cons_of_mem _ member)

theorem remainsMember {line rest : List Char} (member : line ∈ remains rest) : line = rest := by
  unfold remains at member
  split at member
  · contradiction
  · exact List.mem_singleton.mp member

theorem leftLast {raws : List (List Char)} {number : Nat} {state : LineState} (last : ReturnsLast raws) :
    ReturnsLast (leftFrom number state raws) := by
  induction raws generalizing number state with
  | nil => simp [leftFrom, ReturnsLast]
  | cons raw rest ih =>
    have here := last raw List.mem_cons_self
    obtain ⟨plain, returns⟩ := lastReturns here
    intro line member
    rw [leftFrom] at member
    rcases List.mem_append.mp member with inside | later
    · rcases leftLinesCases ⟨number, dropEnd '\r' raw, state⟩ (raw.drop (dropEnd '\r' raw).length) with
        ⟨-, same⟩ | same
      · rw [same, (returnsBehind raw).1] at inside
        rwa [List.mem_singleton.mp inside]
      · rw [same] at inside
        rw [remainsMember inside]
        have left := @leftPlain ⟨number, dropEnd '\r' raw, state⟩ plain
        rcases returns with none | one
        · rw [none, List.append_nil]
          exact fun early => left (List.dropLast_subset _ early)
        · rwa [one, List.dropLast_concat]
    · exact ih (fun raw' known => last raw' (List.mem_cons_of_mem _ known)) line later

theorem quietText {origin : Origin} {parts : List (List Char)} (closed : ∀ line ∈ parts, '\n' ∉ line)
    (quiet : ∀ r ∈ rowsFrom 1 {} parts, r.statements = []) : text origin (unlines parts) = [] := by
  rw [textRows, rows, linesUnlines closed]
  split
  · rfl
  · refine List.flatMap_eq_nil_iff.mpr ?_
    intro r member
    rw [Row.findings, quiet r member]
    rfl

/-- Each statement of the text is located where it was recognised, tags are read as before where statements
are cut out, and carriage returns stand at the ends of lines only. -/
structure Separable (source : List Char) : Prop where
  exact : ∀ r ∈ rows source, ∀ m ∈ r.statements, r.Exact m
  tags : ∀ r ∈ rows source, TagsKept r.code.text r.statements
  returns : ReturnsLast (lines source)

instance (source : List Char) : Decidable (Separable source) :=
  decidable_of_iff ((∀ r ∈ rows source, ∀ m ∈ r.statements, r.Exact m) ∧
      (∀ r ∈ rows source, TagsKept r.code.text r.statements) ∧ ReturnsLast (lines source))
    ⟨fun ⟨exact, tags, returns⟩ => ⟨exact, tags, returns⟩, fun ⟨exact, tags, returns⟩ => ⟨exact, tags, returns⟩⟩

theorem Separable.emptied {source : List Char} (separable : Separable source) (origin : Origin) :
    text origin (normalizeEndings (clearText source (text origin source))) = [] := by
  have cut := @fromLinesExact origin source separable.exact
  have closed : ∀ line ∈ leftFrom 1 {} (lines source), '\n' ∉ line := by
    have kept := fromLinesClosed (text origin source) (fun line => @lineClosed source line)
    rwa [cut] at kept
  have left : clearText source (text origin source) = unlines (leftFrom 1 {} (lines source)) := by
    rw [clearText, cut]
  have last : ReturnsLast (lines (unlines (leftFrom 1 {} (lines source)))) := by
    rw [linesUnlines closed]
    split
    · simp [ReturnsLast]
    · exact leftLast separable.returns
  rw [left, normalizedFindings origin last]
  exact quietText closed (leftQuietFrom (.inl rfl) separable.returns separable.tags)

def feeds (parts : List (List Char)) : List Char := parts.flatMap (· ++ ['\n'])

theorem feedsUnlines {parts : List (List Char)} (some : parts ≠ []) : feeds parts = unlines parts ++ ['\n'] := by
  induction parts with
  | nil => contradiction
  | cons line rest ih =>
    cases rest with
    | nil => simp [feeds, unlines]
    | cons next rest =>
      rw [unlinesCons, List.append_assoc, List.cons_append, ← ih (by simp)]
      simp [feeds]

theorem removeSublist {cut : Cut} {f : Finding} {column : Nat} (place : f.column = column) :
    (feeds (cut.remove f).lines).Sublist (feeds cut.lines) := by
  rcases removeCases cut f with same | ⟨above, line, below, parts, _, _, result⟩
  · rw [same]
  · have shorter : (cutLine line f.column f.content.toList.length).Sublist line := by
      rw [place, cutLineNat, ← List.drop_drop]
      conv_rhs => rw [← List.take_append_drop column line]
      exact (List.Sublist.refl _).append (List.drop_sublist _ _)
    have left : (feeds (remains (cutLine line f.column f.content.toList.length))).Sublist (feeds [line]) := by
      unfold remains
      split
      · exact List.nil_sublist _
      · simpa [feeds] using shorter
    have split : ∀ early late, feeds (early ++ late) = feeds early ++ feeds late := fun _ _ => List.flatMap_append
    rw [result, parts, ← List.singleton_append, split, split, split, split, List.append_assoc]
    exact (List.Sublist.refl _).append (left.append (List.Sublist.refl _))

theorem foldSublist {findings : List Finding} (places : ∀ f ∈ findings, ∃ column : Nat, f.column = column)
    (cut : Cut) : (feeds (findings.foldl Cut.remove cut).lines).Sublist (feeds cut.lines) := by
  induction findings generalizing cut with
  | nil => exact List.Sublist.refl _
  | cons f rest ih =>
    obtain ⟨column, place⟩ := places f List.mem_cons_self
    exact (ih (fun g member => places g (List.mem_cons_of_mem _ member)) _).trans (removeSublist place)

theorem clearTextSublist (origin : Origin) (source : List Char) :
    (clearText source (text origin source)).Sublist source := by
  have places : ∀ f ∈ (text origin source).mergeSort notBefore, ∃ column : Nat, f.column = column := by
    intro f member
    obtain ⟨row, -, found⟩ := List.mem_flatMap.mp
      (textRows origin source ▸ (List.mergeSort_perm _ _).mem_iff.mp member)
    obtain ⟨-, column, place, -⟩ := Row.findingShowsToken found
    exact ⟨column, place⟩
  have fewer : (feeds (fromLines (lines source) (text origin source)).lines).Sublist (feeds (lines source)) :=
    foldSublist places { lines := lines source }
  unfold clearText
  by_cases empty : (fromLines (lines source) (text origin source)).lines = []
  · rw [empty]
    exact List.nil_sublist _
  · rw [feedsUnlines (linesHeld source), feedsUnlines empty, unlinesLines] at fewer
    exact (List.append_sublist_append_right _).mp fewer

end Clear
end DebugSweep
