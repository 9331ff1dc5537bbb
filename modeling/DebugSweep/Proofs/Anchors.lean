import DebugSweep.Proofs.Location
import Mathlib.Data.List.DropRight
import Mathlib.Data.List.Nodup

/-! First code characters of statements. Main statements: no two statements of a line share one,
and what stands before it leads to code whatever follows. -/
namespace DebugSweep.Scan
open Lexis Text

theorem rowSource {number n : Nat} {state : LineState} {raws : List (List Char)} {row : Row}
    (found : (rowsFrom number state raws)[n]? = some row) :
    ∃ raw, raws[n]? = some raw ∧ row.line = dropEnd '\r' raw ∧
      row.state = stateBehind state (raws.take n) := by
  induction raws generalizing number state n with
  | nil => simp [rowsFrom] at found
  | cons raw rest ih =>
    cases n with
    | zero =>
      simp only [rowsFrom, List.getElem?_cons_zero, Option.some.injEq] at found
      subst row
      exact ⟨raw, rfl, rfl, rfl⟩
    | succ n =>
      obtain ⟨raw', here, line, inherited⟩ := ih found
      refine ⟨raw', here, line, ?_⟩
      rw [inherited, classifyReads, (returnsRead state raw).1]
      rfl

theorem findingOrigin {origin : Origin} {number : Int} {line : List Char} {code : CodeLine} {m : Merged}
    {f : Finding} (found : finding? origin number line code m = some f) :
    f.filePath = origin.filePath ∧ f.id = Finding.idOf origin.filePath f.lineNumber f.column := by
  unfold finding? at found
  simp only [Option.bind_eq_bind, Option.bind_eq_some_iff] at found
  obtain ⟨⟨start, stop⟩, -, last⟩ := found
  dsimp only at last
  split at last
  · contradiction
  · cases Option.some.inj last
    exact ⟨rfl, rfl⟩

theorem rowsRising (source : List Char) : (rows source).Pairwise (fun a b => a.number < b.number) := by
  rw [List.pairwise_iff_getElem]
  intro i j first second less
  have numberI := rowNumber (List.getElem?_eq_getElem first)
  have numberJ := rowNumber (List.getElem?_eq_getElem second)
  change (rows source)[i].number = _ at numberI
  change (rows source)[j].number = _ at numberJ
  omega

theorem offsetOrder {line : List Char} {state : LineState} {i j o p : Nat} {c d : Char}
    (left : (codeOf line state).chars[i]? = some (o, c))
    (right : (codeOf line state).chars[j]? = some (p, d)) : i < j ↔ o < p := by
  have rising := List.pairwise_iff_getElem.mp (codeOffsetsRising line state)
  obtain ⟨insideLeft, atLeft⟩ := List.getElem?_eq_some_iff.mp left
  obtain ⟨insideRight, atRight⟩ := List.getElem?_eq_some_iff.mp right
  have sized : (codeOf line state).offsets.length = (codeOf line state).chars.length := by
    simp [CodeLine.offsets]
  have forward := rising i j (by omega) (by omega)
  have backward := rising j i (by omega) (by omega)
  simp only [CodeLine.offsets, List.getElem_map, atLeft, atRight] at forward backward
  rcases Nat.lt_trichotomy i j with less | rfl | more
  · exact iff_of_true less (forward less)
  · have same : o = p := by simpa using congrArg Prod.fst (atLeft.symm.trans atRight)
    omega
  · have := backward more
    omega

theorem stripKeepsFirst {c : Char} (rest : List Char) (visible : isBlank c = false) :
    ∃ kept tail, strip (c :: rest) = c :: kept ∧ rest = kept ++ tail ∧ allBlank tail = true := by
  have shown : strip (c :: rest) ≠ [] := stripVisible List.mem_cons_self visible
  have front : dropBlanks (c :: rest) = c :: rest := by simp [dropBlanks, visible]
  unfold strip at shown ⊢
  rw [front] at shown ⊢
  have split : dropBlanksEnd (c :: rest) ++ (c :: rest).rtakeWhile isBlank = c :: rest :=
    List.rdropWhile_append_rtakeWhile
  cases trimmed : dropBlanksEnd (c :: rest) with
  | nil => contradiction
  | cons d kept =>
    rw [trimmed, List.cons_append, List.cons.injEq] at split
    refine ⟨kept, (c :: rest).rtakeWhile isBlank, by rw [split.1], split.2.symm, ?_⟩
    exact List.all_eq_true.mpr (fun d member => List.mem_rtakeWhile_imp member)

theorem contentStands {number start stop : Nat} {line : List Char} {m : Merged} {f : Finding}
    (tells : Tells number line m start stop f) (later : start < stop)
    (token : (dropToken? m.kind.token.toList (line.drop start)).isSome) :
    ∃ c kept tail, f.content.toList = c :: kept ∧ isBlank c = false ∧ allBlank tail = true ∧
      (line.take stop).drop start = f.content.toList ++ tail := by
  obtain ⟨c, rest, starts, visible⟩ := tokenVisible token
  obtain ⟨width, wide⟩ : ∃ width, stop - start = width + 1 := ⟨stop - start - 1, by omega⟩
  obtain ⟨kept, tail, content, split, blank⟩ := stripKeepsFirst (rest.take width) visible
  have shown : (line.take stop).drop start = c :: rest.take width := by
    rw [List.drop_take, starts, wide, List.take_succ_cons]
  have body : f.content.toList = c :: kept := by
    rw [tells.content, String.toList_ofList, shown, content]
  refine ⟨c, kept, tail, body, visible, blank, ?_⟩
  rw [shown, body, List.cons_append, ← split]

namespace Row

def haltPlace? (r : Row) (m : Merged) : Option Nat :=
  m.halt.bind (fun halt =>
    (findHaltFrom? r.line (max (statementEnd r.line (r.anchor m)) (r.code.rawOffset halt.leading))).or
      (findHaltFrom? r.line (statementEnd r.line (r.anchor m))))

def stop (r : Row) (m : Merged) : Nat := statementEnd r.line ((r.haltPlace? m).getD (r.anchor m))

def HaltsInCode (r : Row) (m : Merged) : Prop :=
  ∀ place ∈ r.haltPlace? m, r.classes[place]? = some .code

instance (r : Row) (m : Merged) : Decidable (r.HaltsInCode m) :=
  inferInstanceAs (Decidable (∀ place ∈ r.haltPlace? m, _))

theorem spelledLocated {r : Row} {m : Merged} (spelled : r.Spells m) :
    locate? r.line r.code m = some (r.anchor m, r.stop m) := by
  have first : locateToken? r.line m.kind.token.toList (r.code.rawOffset m.segment.leading) =
      some (r.anchor m) := locateSpelled spelled
  simp only [locate?, first, Option.bind_eq_bind, Option.bind_some, stop, haltPlace?]
  cases m.halt with
  | none => rfl
  | some halt =>
    simp only [Option.bind_some]
    split
    · rename_i nowhere
      rw [nowhere]
      rfl
    · rename_i place halted
      rw [halted]
      rfl

theorem spelledTells {origin : Origin} {r : Row} {m : Merged} {f : Finding} (spelled : r.Spells m)
    (found : finding? origin r.number r.line r.code m = some f) :
    r.anchor m < r.stop m ∧ r.stop m ≤ r.line.length ∧
      Tells r.number r.line m (r.anchor m) (r.stop m) f := by
  obtain ⟨start, stop, located, tells⟩ := findingSource found
  obtain ⟨stop', again, bounds⟩ := locateBounds (locateSource located)
  rw [located] at again
  cases Option.some.inj again
  rw [spelledLocated spelled] at located
  cases Option.some.inj located
  exact ⟨bounds.1, bounds.2, tells⟩

theorem statementsFollow (r : Row) :
    r.statements.Pairwise (fun a b => a.segment.stop < b.segment.start) := by
  unfold statements
  split
  · exact List.pairwise_map.mp ((segmentsFollow _).sublist (mergeSublist _))
  · exact List.Pairwise.nil

theorem leadingRising (r : Row) :
    r.statements.Pairwise (fun a b => a.segment.leading < b.segment.leading) := by
  refine r.statementsFollow.imp_of_mem ?_
  intro a b left right follows
  have first := leadingInside (statementLies left).1 (statementLies left).2
  have second := leadingInside (statementLies right).1 (statementLies right).2
  omega

theorem anchorUnique {r : Row} {a b : Merged} (left : a ∈ r.statements) (right : b ∈ r.statements)
    (same : r.anchor a = r.anchor b) : a = b := by
  obtain ⟨c, atLeft⟩ := anchorChar left
  obtain ⟨d, atRight⟩ := anchorChar right
  have forward := offsetOrder atLeft atRight
  have backward := offsetOrder atRight atLeft
  have equal : a.segment.leading = b.segment.leading := by omega
  have distinct : (r.statements.map (·.segment.leading)).Nodup :=
    List.pairwise_map.mpr (r.leadingRising.imp Nat.ne_of_lt)
  exact List.inj_on_of_nodup_map distinct left right equal

-- A slash of code just before the first character would be the code character before it.
theorem anchorNoSlash {r : Row} {m : Merged} (member : m ∈ r.statements) {o : Nat}
    (behind : r.anchor m = o + 1) (slash : r.line[o]? = some '/') :
    r.classes[o]? ≠ some .code := by
  intro live
  obtain ⟨c, atAnchor⟩ := anchorChar member
  obtain ⟨i, atSlash⟩ := List.mem_iff_getElem?.mp (codeMember.mpr ⟨slash, live⟩)
  have before : i < m.segment.leading := (offsetOrder atSlash atAnchor).mpr (by omega)
  have last : i = m.segment.leading - 1 := by
    by_contra other
    have inside : i + 1 < r.code.chars.length := by
      have := (List.getElem?_eq_some_iff.mp atAnchor).1
      omega
    obtain ⟨⟨p, d⟩, between⟩ : ∃ next, r.code.chars[i + 1]? = some next :=
      ⟨_, List.getElem?_eq_getElem inside⟩
    have above := (offsetOrder atSlash between).mp (Nat.lt_succ_self i)
    have below := (offsetOrder between atAnchor).mp (by omega)
    omega
  rcases leadingEdge (statementLies member).1 (statementLies member).2 with start | other
  · omega
  · apply other
    rw [← last, CodeLine.text, List.getElem?_map]
    change Option.map Prod.snd (codeOf r.line r.state).chars[i]? = _
    rw [atSlash]
    rfl

theorem classesRead (r : Row) : r.classes = r.state.mode.classes none r.line := by
  rw [classes, classifyReads]

theorem codeAround {r : Row} {place : Nat} (live : r.classes[place]? = some .code) :
    (r.line.take place).length = place ∧
      (r.state.mode.classes none (r.line.take place ++ r.line.drop place))[
        (r.line.take place).length]? = some .code := by
  rw [classesRead] at live
  have inside := (List.getElem?_eq_some_iff.mp live).1
  rw [classesLength] at inside
  have size : (r.line.take place).length = place := by simp; omega
  refine ⟨size, ?_⟩
  rw [List.take_append_drop, size]
  exact live

theorem classesBehind {r : Row} {place : Nat} (live : r.classes[place]? = some .code) :
    r.classes.drop place = Mode.code.classes none (r.line.drop place) := by
  obtain ⟨size, around⟩ := codeAround live
  have behind := classesFromCode around
  rw [List.take_append_drop, size] at behind
  rw [classesRead, behind]

theorem anchorLeads {r : Row} {m : Merged} (member : m ∈ r.statements) :
    r.state.mode.LeadsToCode (r.line.take (r.anchor m)) := by
  obtain ⟨size, around⟩ := codeAround (anchorInCode member)
  refine leadsToCodeBefore around ?_
  rw [List.take_append_drop, size, ← classesRead]
  cases place : r.anchor m with
  | zero => exact Or.inl rfl
  | succ o =>
    right
    by_cases slash : r.line[o]? = some '/'
    · exact Or.inr (anchorNoSlash member place slash)
    · left
      rw [place, List.length_take] at size
      rw [List.getLast?_take]
      simp only [Nat.add_sub_cancel, Nat.add_one_ne_zero, if_false]
      rw [List.getElem?_eq_getElem (by omega)] at slash ⊢
      exact slash

theorem endCases {r : Row} {place : Nat} (live : r.classes[place]? = some .code) :
    statementEnd r.line place = r.line.length ∨
    ∃ last, statementEnd r.line place = last + 1 ∧ place ≤ last ∧ r.line[last]? = some ';' ∧
      r.classes[last]? = some .code := by
  unfold statementEnd
  split
  · rename_i offset found
    obtain ⟨semicolon, code⟩ := codeMember.mp (terminatorInside found)
    rw [classifyReads] at code
    change (Mode.code.classes none (r.line.drop place))[offset]? = some .code at code
    rw [← classesBehind live, List.getElem?_drop] at code
    rw [List.getElem?_drop] at semicolon
    exact Or.inr ⟨place + offset, rfl, by omega, semicolon, code⟩
  · exact Or.inl rfl

theorem haltBehind {r : Row} {m : Merged} {place : Nat} (halted : r.haltPlace? m = some place) :
    statementEnd r.line (r.anchor m) ≤ place ∧ place < r.line.length := by
  obtain ⟨halt, _, found⟩ := Option.bind_eq_some_iff.mp halted
  rcases Option.or_eq_some_iff.mp found with first | ⟨_, second⟩
  · have := findHaltFromFound first
    omega
  · exact findHaltFromFound second

theorem haltBounds {r : Row} {m : Merged} {place : Nat} (inside : r.anchor m < r.line.length)
    (halted : r.haltPlace? m = some place) : r.anchor m ≤ place := by
  have bounds := statementEndBounds inside
  have later := haltBehind halted
  omega

theorem stopCases {r : Row} {m : Merged} (member : m ∈ r.statements) (halts : r.HaltsInCode m) :
    r.stop m = r.line.length ∨
    ∃ last, r.stop m = last + 1 ∧ r.anchor m ≤ last ∧ r.line[last]? = some ';' ∧
      r.classes[last]? = some .code := by
  have live := anchorInCode member
  unfold stop
  cases halted : r.haltPlace? m with
  | none => exact endCases live
  | some place =>
    have inside : r.anchor m < r.line.length := by
      rw [classesRead] at live
      have := (List.getElem?_eq_some_iff.mp live).1
      rwa [classesLength] at this
    have later := haltBounds inside halted
    rcases endCases (halts place halted) with whole | ⟨last, same, behind, semicolon, code⟩
    · exact Or.inl whole
    · exact Or.inr ⟨last, same, by omega, semicolon, code⟩

theorem semicolonLeads {r : Row} {place last : Nat} (live : r.classes[place]? = some .code)
    (behind : place ≤ last) (semicolon : r.line[last]? = some ';')
    (code : r.classes[last]? = some .code) :
    ∃ front, (r.line.take (last + 1)).drop place = front ++ [';'] ∧
      Mode.code.LeadsToCode (front ++ [';']) := by
  obtain ⟨inside, isLast⟩ := List.getElem?_eq_some_iff.mp semicolon
  have short : place ≤ (r.line.take last).length := by
    rw [List.length_take]
    omega
  have size : ((r.line.take last).drop place).length = last - place := by
    rw [List.length_drop, List.length_take]
    omega
  refine ⟨(r.line.take last).drop place, ?_, ?_⟩
  · rw [List.take_succ_eq_append_getElem inside, isLast, List.drop_append_of_le_length short]
  · have rest : r.line.drop place =
        (r.line.take last).drop place ++ ';' :: r.line.drop (last + 1) := by
      rw [← List.drop_append_of_le_length short, ← isLast, List.getElem_cons_drop,
        List.take_append_drop]
    apply @leadsToCodeEnd _ none _ (r.line.drop (last + 1))
    rw [← rest, ← classesBehind live, List.getElem?_drop, size]
    rwa [Nat.add_sub_cancel' behind]

theorem contentEnds {origin : Origin} {r : Row} {m : Merged} {f : Finding} (member : m ∈ r.statements)
    (spelled : r.Spells m) (halts : r.HaltsInCode m)
    (found : finding? origin r.number r.line r.code m = some f) :
    ∃ after, r.line = r.line.take (r.anchor m) ++ f.content.toList ++ after ∧
      (Mode.code.LeadsToCode f.content.toList ∨ allBlank after = true) := by
  obtain ⟨later, _, tells⟩ := spelledTells spelled found
  obtain ⟨_, _, tail, _, _, blank, shown⟩ := contentStands tells later spelled
  refine ⟨tail ++ r.line.drop (r.stop m), ?_, ?_⟩
  · have front := List.take_append_drop (r.anchor m) (r.line.take (r.stop m))
    rw [shown, List.take_take, Nat.min_eq_left (Nat.le_of_lt later)] at front
    conv_lhs => rw [← List.take_append_drop (r.stop m) r.line, ← front]
    simp only [List.append_assoc]
  · rcases stopCases member halts with whole | ⟨last, stop, behind, semicolon, code⟩
    · right
      rw [whole, List.drop_length, List.append_nil]
      exact blank
    · left
      obtain ⟨front, split, leads⟩ := semicolonLeads (anchorInCode member) behind semicolon code
      rw [← stop, shown] at split
      rcases List.eq_nil_or_concat' tail with rfl | ⟨blanks, d, rfl⟩
      · rw [List.append_nil] at split
        rwa [split]
      · -- The semicolon would be a blank.
        rw [← List.append_assoc] at split
        cases (List.append_inj' split rfl).2
        exact absurd (List.all_eq_true.mp blank ';' (by simp)) (by decide)

end Row
end DebugSweep.Scan
