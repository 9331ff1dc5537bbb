import DebugSweep.Proofs.Dumps

/-! What a dump leaves of the text that it is put into. Main statement: the answer holds the text, cut in two at
most, around what was put in, but that carriage returns at the ends of lines are gone; so every character is kept
exactly if there are none. -/
namespace DebugSweep.Text
open Clear Edit

def unreturned (text : List Char) : List Char := (Document.ofText text).text

def Unreturned (text : List Char) : Prop := ¬ ['\r', '\n'] <:+: text ∧ text.getLast? ≠ some '\r'

theorem pairAppend {left right : List Char} : ['\r', '\n'] <:+: left ++ right ↔
    ['\r', '\n'] <:+: left ∨ ['\r', '\n'] <:+: right ∨ left.getLast? = some '\r' ∧ right.head? = some '\n' := by
  rw [List.infix_append_iff]
  constructor
  · rintro (inside | inside | ⟨front, back, parts, before, behind⟩)
    · exact .inl inside
    · exact .inr (.inl inside)
    · rcases List.append_eq_cons_iff.mp parts.symm with ⟨rfl, rfl⟩ | ⟨front, rfl, rest⟩
      · exact .inr (.inl behind.isInfix)
      · rcases List.append_eq_cons_iff.mp rest.symm with ⟨rfl, rfl⟩ | ⟨more, rfl, none⟩
        · obtain ⟨early, rfl⟩ := before
          obtain ⟨late, rfl⟩ := behind
          exact .inr (.inr ⟨by simp, rfl⟩)
        · obtain ⟨rfl, -⟩ := List.append_eq_nil_iff.mp none.symm
          exact .inl before.isInfix
  · rintro (inside | inside | ⟨last, first⟩)
    · exact .inl inside
    · exact .inr (.inl inside)
    · obtain ⟨early, rfl⟩ := List.getLast?_eq_some_iff.mp last
      obtain ⟨late, rfl⟩ := List.head?_eq_some_iff.mp first
      exact .inr (.inr ⟨['\r'], ['\n'], rfl, ⟨early, rfl⟩, ⟨late, rfl⟩⟩)

theorem plainUnreturned {text : List Char} (plain : '\r' ∉ text) : Unreturned text :=
  ⟨fun pair => plain (pair.subset (by simp)), fun last => plain (List.mem_of_getLast? last)⟩

theorem pairFree {left right : List Char} (first : ¬ ['\r', '\n'] <:+: left) (second : ¬ ['\r', '\n'] <:+: right)
    (between : left.getLast? ≠ some '\r' ∨ right.head? ≠ some '\n') : ¬ ['\r', '\n'] <:+: left ++ right := by
  rw [pairAppend]
  tauto

theorem pairClosed {line : List Char} (closed : '\n' ∉ line) : ¬ ['\r', '\n'] <:+: line :=
  fun inside => closed (inside.subset (by simp))

theorem unreturnedUnlines {parts : List (List Char)} (closed : Closed parts) (held : parts ≠ []) :
    Unreturned (unlines parts) ↔ ∀ line ∈ parts, line.getLast? ≠ some '\r' := by
  induction parts with
  | nil => contradiction
  | cons line rest ih =>
    obtain ⟨here, later⟩ := List.forall_mem_cons.mp closed
    cases rest with
    | nil => simp [unlinesOne, Unreturned, pairClosed here]
    | cons next rest =>
      have tail := ih later (by simp)
      rw [unlinesCons, List.forall_mem_cons, ← tail]
      generalize unlines (next :: rest) = text
      have feed : ['\r', '\n'] <:+: '\n' :: text ↔ ['\r', '\n'] <:+: text := by
        simp [List.infix_cons_iff]
      have last : (line ++ '\n' :: text).getLast? = some '\r' ↔ text.getLast? = some '\r' := by
        rw [List.getLast?_append, List.getLast?_cons]
        cases text.getLast? <;> simp
      rw [Unreturned, ne_eq, last, pairAppend, feed, Unreturned]
      simp [pairClosed here]
      tauto

theorem linesClosed (text : List Char) : Closed (lines text) := fun _ => lineClosed

theorem trimKeeps {line : List Char} : dropEnd '\r' line = line ↔ line.getLast? ≠ some '\r' := by
  constructor
  · intro same last
    rw [← same] at last
    exact dropEndLast '\r' line last
  · intro other
    refine List.rdropWhile_eq_self_iff.mpr fun held last => other ?_
    rw [List.getLast?_eq_some_getLast held, beq_iff_eq.mp last]

theorem unreturnedLines (text : List Char) : Unreturned text ↔ ∀ line ∈ lines text, dropEnd '\r' line = line := by
  have told := unreturnedUnlines (linesClosed text) (linesHeld text)
  rw [unlinesLines] at told
  simp only [told, trimKeeps]

theorem unreturnedSame {text : List Char} (kept : Unreturned text) : unreturned text = text := by
  have same : (lines text).map (dropEnd '\r') = lines text :=
    List.map_congr_left ((unreturnedLines text).mp kept) |>.trans (List.map_id _)
  exact (congrArg unlines same).trans (unlinesLines text)

theorem returnsTrimmed (line : List Char) : (dropEnd '\r' line).count '\r' ≤ line.count '\r' ∧
    ((dropEnd '\r' line).count '\r' = line.count '\r' → dropEnd '\r' line = line) := by
  obtain ⟨whole, only⟩ := returnsBehind line
  generalize line.drop (dropEnd '\r' line).length = returns at whole only
  have size : returns.count '\r' = returns.length := List.count_eq_length.mpr fun c member => (only c member).symm
  have count := congrArg (List.count '\r') whole
  rw [List.count_append, size] at count
  refine ⟨by omega, fun same => ?_⟩
  have none : returns = [] := List.length_eq_zero_iff.mp (by omega)
  rw [none, List.append_nil] at whole
  exact whole

theorem countUnlines (parts : List (List Char)) : (unlines parts).count '\r' = parts.flatten.count '\r' := by
  induction parts with
  | nil => rfl
  | cons line rest ih =>
    cases rest with
    | nil => simp [unlinesOne]
    | cons next rest =>
      rw [unlinesCons, List.flatten_cons, List.count_append, List.count_append, List.count_cons_of_ne (by decide), ih]

theorem linesTrimmed (parts : List (List Char)) :
    (parts.map (dropEnd '\r')).flatten.count '\r' ≤ parts.flatten.count '\r' ∧
      ((parts.map (dropEnd '\r')).flatten.count '\r' = parts.flatten.count '\r' →
        ∀ line ∈ parts, dropEnd '\r' line = line) := by
  induction parts with
  | nil => simp
  | cons line rest ih =>
    obtain ⟨fewer, same⟩ := ih
    obtain ⟨here, kept⟩ := returnsTrimmed line
    simp only [List.map_cons, List.flatten_cons, List.count_append, List.forall_mem_cons]
    exact ⟨by omega, fun all => ⟨kept (by omega), same (by omega)⟩⟩

-- Nothing but carriage returns is lost, so their number tells whether anything is.
theorem countUnreturned {text : List Char} (same : (unreturned text).count '\r' = text.count '\r') :
    Unreturned text := by
  refine (unreturnedLines text).mpr ((linesTrimmed (lines text)).2 ?_)
  rw [← countUnlines, ← countUnlines, unlinesLines]
  exact same

theorem unlinesAppend {above below : List (List Char)} (first : above ≠ []) (second : below ≠ []) :
    unlines (above ++ below) = unlines above ++ '\n' :: unlines below := by
  obtain ⟨next, rest, rfl⟩ := List.exists_cons_of_ne_nil second
  rcases List.eq_nil_or_concat' above with none | ⟨early, line, rfl⟩
  · contradiction
  · have split := unlinesSplit early (next :: rest) line []
    rw [unlinesCons, List.nil_append, List.append_nil] at split
    rw [split, List.append_assoc, List.singleton_append]

theorem linesJoined (left right : List Char) : lines (left ++ '\n' :: right) = lines left ++ lines right := by
  have parts := @linesUnlines (lines left ++ lines right)
    (List.forall_mem_append.mpr ⟨linesClosed left, linesClosed right⟩)
  rwa [unlinesAppend (linesHeld left) (linesHeld right), unlinesLines, unlinesLines,
    if_neg (List.append_ne_nil_of_left_ne_nil (linesHeld left) _)] at parts

theorem unreturnedJoined (left right : List Char) :
    unreturned (left ++ '\n' :: right) = unreturned left ++ '\n' :: unreturned right := by
  rw [unreturned, Document.ofText, linesJoined, List.map_append]
  exact unlinesAppend (textHeld left) (textHeld right)

theorem unreturnedEach {parts : List (List Char)} (held : parts ≠ []) :
    unreturned (unlines parts) = unlines (parts.map unreturned) := by
  induction parts with
  | nil => contradiction
  | cons line rest ih =>
    cases rest with
    | nil => simp [unlinesOne]
    | cons next rest =>
      rw [unlinesCons, unreturnedJoined, ih (by simp)]
      exact (unlinesCons _ _ _).symm

theorem unreturnedLine {line : List Char} (closed : '\n' ∉ line) : unreturned line = dropEnd '\r' line := by
  have only := @linesUnlines [line] (List.forall_mem_singleton.mpr closed)
  rw [unlinesOne, if_neg (by simp)] at only
  rw [unreturned, Document.text, Document.ofText, only]
  exact unlinesOne _

theorem trimTwice (line : List Char) : dropEnd '\r' (dropEnd '\r' line) = dropEnd '\r' line :=
  trimKeeps.mpr (dropEndLast '\r' line)

theorem trimCut {line : List Char} {column : Nat} (fits : column ≤ (dropEnd '\r' line).length) :
    (dropEnd '\r' line).take column = line.take column ∧
      dropEnd '\r' ((dropEnd '\r' line).drop column) = dropEnd '\r' (line.drop column) := by
  obtain ⟨whole, only⟩ := returnsBehind line
  generalize line.drop (dropEnd '\r' line).length = returns at whole only
  generalize dropEnd '\r' line = front at fits whole
  subst whole
  rw [List.take_append_of_le_length fits, List.drop_append_of_le_length fits, dropEndBehind only]
  exact ⟨rfl, rfl⟩

end DebugSweep.Text

namespace DebugSweep.Edit
open Text Clear

def rawDocument (text : List Char) : Document := ⟨lines text⟩

section
variable {source statement : List Char} {p : Plan}

theorem rawText (source : List Char) : (rawDocument source).text = source := unlinesLines source

theorem trimmedLines (source : List Char) :
    (Document.ofText source).lines = (rawDocument source).lines.map (dropEnd '\r') := rfl

theorem rawFits (fits : p.Fits (.ofText source)) : p.Fits (rawDocument source) where
  indents := fits.indents
  column := fits.column
  inside leads := by
    have inside := fits.inside leads
    rwa [Document.count, trimmedLines, List.length_map] at inside

-- Cut at the planned place, the text and its trimmed lines differ in carriage returns at line ends only.
theorem aroundTrimmed (column : ∀ line, (Document.ofText source).lines[p.line]? = some line → p.column ≤ line.length) :
    (p.above (.ofText source)).map (dropEnd '\r') = (p.above (rawDocument source)).map (dropEnd '\r') ∧
      (p.below (.ofText source)).map (dropEnd '\r') = (p.below (rawDocument source)).map (dropEnd '\r') := by
  rw [Plan.above, Plan.above, Plan.below, Plan.below]
  rw [trimmedLines] at column ⊢
  generalize (rawDocument source).lines = raws at column ⊢
  have twice (some : List (List Char)) : (some.map (dropEnd '\r')).map (dropEnd '\r') = some.map (dropEnd '\r') := by
    simp [trimTwice]
  rw [List.map_append, List.map_append, ← List.map_take, twice, List.getElem?_map]
  rw [List.getElem?_map] at column
  cases here : raws[p.line]? with
  | none =>
    rw [← List.map_drop, List.drop_eq_nil_of_le (List.getElem?_eq_none_iff.mp here)]
    exact ⟨rfl, rfl⟩
  | some line =>
    obtain ⟨front, back⟩ := trimCut (column (dropEnd '\r' line) (by rw [here]; rfl))
    rw [← List.map_drop, dropHere here]
    refine ⟨by simp [front], ?_⟩
    simp only [List.map_cons, back, twice]

theorem aroundClosed {d : Document} (closed : Closed d.lines) (p : Plan) : Closed (p.above d) ∧ Closed (p.below d) := by
  have within {line : List Char} (known : line = [] ∨ ∃ whole ∈ d.lines, line ⊆ whole) : '\n' ∉ line := by
    rcases known with rfl | ⟨whole, member, within⟩
    · exact List.not_mem_nil
    · exact fun inside => closed whole member (within inside)
  exact ⟨fun line member => within (aboveWithin member), fun line member => within (belowWithin member)⟩

theorem unreturnedAround {d e : Document} (some : List Char) (first : Closed d.lines) (second : Closed e.lines)
    (above : (p.above d).map (dropEnd '\r') = (p.above e).map (dropEnd '\r'))
    (below : (p.below d).map (dropEnd '\r') = (p.below e).map (dropEnd '\r')) :
    unreturned (unlines (p.above d ++ some :: p.below d)) = unreturned (unlines (p.above e ++ some :: p.below e)) := by
  have plain {parts : List (List Char)} (closed : Closed parts) : parts.map unreturned = parts.map (dropEnd '\r') :=
    List.map_congr_left fun line member => unreturnedLine (closed line member)
  obtain ⟨aboveClosed, belowClosed⟩ := aroundClosed first p
  obtain ⟨aboveClosed', belowClosed'⟩ := aroundClosed second p
  rw [unreturnedEach (by simp), unreturnedEach (by simp), List.map_append, List.map_append, List.map_cons,
    List.map_cons, plain aboveClosed, plain belowClosed, plain aboveClosed', plain belowClosed', above, below]

theorem startUnreturned (above : List (List Char)) : (unlines (above ++ [[]])).getLast? ≠ some '\r' := by
  rcases List.eq_nil_or_concat' above with rfl | ⟨early, line, rfl⟩
  · rw [List.nil_append, unlinesOne]
    nofun
  · rw [unlinesAppend (by simp) (by simp), unlinesOne]
    simp

structure Around (source added : List Char) (front glue back : List Char) : Prop where
  parts : source = front ++ back
  glued : glue = [] ∨ glue = ['\n'] ∧ back = []
  edge : front.getLast? = some '\r' → (glue ++ added).head? = some '\n'

theorem placedAround {d : Document} (fits : p.Fits d) (bound : p.line ≤ d.lines.length) (held : d.text ≠ []) :
    ∃ front glue back, Around d.text (render p statement) front glue back ∧
      unlines (p.above d ++ (p.indent ++ statement) :: p.below d) = front ++ glue ++ render p statement ++ back := by
  rcases Nat.lt_or_eq_of_le bound with inside | last
  · refine ⟨_, [], _, ⟨(List.take_append_drop (d.offsetOf p.line p.column) d.text).symm, .inl rfl, ?_⟩, ?_⟩
    · intro last
      rw [List.nil_append, render]
      cases block : p.leadingNewline with
      | true => rfl
      | false =>
        rw [(offsetInside (List.getElem?_eq_getElem inside)).1, fits.column block, List.take_zero] at last
        exact absurd last (startUnreturned _)
    · rw [List.append_nil, insidePlaced fits inside]
  · refine ⟨d.text, ['\n'], [], ⟨(List.append_nil _).symm, .inr ⟨rfl, rfl⟩, fun _ => rfl⟩, ?_⟩
    rw [← lastPlaced held fits last]
    simp

theorem Around.unreturned {added front glue back : List Char} (around : Around source added front glue back)
    (plain : ¬ ['\r', '\n'] <:+: added) (closes : added.getLast? = some '\n') :
    Unreturned (front ++ glue ++ added ++ back) ↔ Unreturned front ∧ Unreturned back := by
  have unpaired : ¬ ['\r', '\n'] <:+: glue ++ added := by
    rcases around.glued with none | ⟨one, -⟩
    · rwa [none]
    · rw [one]
      exact pairFree (by decide) plain (.inl (by decide))
  have ends : (glue ++ added).getLast? = some '\n' := by rw [List.getLast?_append, closes]; rfl
  have edge := around.edge
  rw [List.append_assoc front]
  generalize glue ++ added = middle at unpaired ends edge ⊢
  have between : (front ++ middle).getLast? = some '\n' := by rw [List.getLast?_append, ends]; rfl
  have last : (front ++ middle ++ back).getLast? = some '\r' ↔ back.getLast? = some '\r' := by
    rw [List.getLast?_append, between]
    cases back.getLast? <;> simp
  rw [Unreturned, ne_eq, last, pairAppend, pairAppend, between, Unreturned, Unreturned]
  simp only [unpaired, false_or, Option.some.injEq, show '\n' ≠ '\r' by decide, false_and, or_false]
  tauto

def Spliced (source added text : List Char) : Prop :=
  (∃ front back, source = front ++ back ∧ text = front ++ added ++ back) ∨ text = source ++ '\n' :: added

theorem Spliced.count {added text : List Char} (spliced : Spliced source added text) :
    text.count '\r' = source.count '\r' + added.count '\r' := by
  rcases spliced with ⟨front, back, rfl, rfl⟩ | rfl
  · simp only [List.count_append]
    omega
  · rw [List.count_append, List.count_cons_of_ne (by decide)]

theorem Around.splicedIff {added front glue back : List Char} (around : Around source added front glue back) :
    Spliced source added (Text.unreturned (front ++ glue ++ added ++ back)) ↔
      Unreturned (front ++ glue ++ added ++ back) := by
  have whole : Spliced source added (front ++ glue ++ added ++ back) := by
    rw [around.parts]
    rcases around.glued with rfl | ⟨rfl, rfl⟩
    · exact .inl ⟨front, back, rfl, by simp⟩
    · exact .inr (by simp)
  constructor
  · intro spliced
    exact countUnreturned (spliced.count.trans whole.count.symm)
  · intro kept
    rwa [unreturnedSame kept]

end

section
variable {d : Document} {s : Selection} {expression : List Char}

theorem partClosed {line part : List Char} (closed : '\n' ∉ line) (inside : part <:+: line) :
    ¬ ['\r', '\n'] <:+: part :=
  fun pair => pairClosed closed (pair.trans inside)

theorem pickedUnpaired {picked : List Char} (closed : Closed d.lines)
    (trimmed : ∀ line ∈ d.lines, line.getLast? ≠ some '\r') (selected : d.textIn s = .ok picked) : ¬ ['\r', '\n'] <:+: picked := by
  have known (n : Nat) : '\n' ∉ (d.lines[n]?).getD [] ∧ ((d.lines[n]?).getD []).getLast? ≠ some '\r' := by
    cases here : d.lines[n]? with
    | none => exact ⟨List.not_mem_nil, nofun⟩
    | some line =>
      have member := List.mem_of_getElem? here
      exact ⟨closed line member, trimmed line member⟩
  unfold Document.textIn at selected
  split at selected
  · contradiction
  · dsimp only at selected
    obtain ⟨first, edge⟩ := known s.startLine
    split at selected
    · cases selected
      exact partClosed first ((List.drop_suffix _ _).isInfix.trans (List.take_prefix _ _).isInfix)
    · cases selected
      generalize (d.lines[s.startLine]?).getD [] = opening at first edge
      obtain ⟨last, -⟩ := known s.endLine
      have middle : (d.lines.take s.endLine).drop (s.startLine + 1) ⊆ d.lines :=
        fun line member => List.take_subset _ _ (List.drop_subset _ _ member)
      generalize (d.lines.take s.endLine).drop (s.startLine + 1) = inner at middle
      have split := unlinesSplit (opening.drop s.startCharacter :: inner) []
        [] (((d.lines[s.endLine]?).getD []).take s.endCharacter)
      rw [unlinesOne, List.nil_append] at split
      have front : Unreturned (unlines (opening.drop s.startCharacter :: inner ++ [[]])) := by
        refine (unreturnedUnlines ?_ (by simp)).mpr ?_
        · simp only [Closed, List.forall_mem_append, List.forall_mem_cons]
          exact ⟨⟨fun feed => first ((List.drop_subset _ _) feed), fun line member => closed line (middle member)⟩,
            by simp⟩
        · simp only [List.forall_mem_append, List.forall_mem_cons]
          refine ⟨⟨fun last => edge ?_, fun line member => trimmed line (middle member)⟩, by simp⟩
          obtain ⟨early, parts⟩ := List.getLast?_eq_some_iff.mp last
          rw [← List.take_append_drop s.startCharacter opening, parts]
          simp
      rw [← split]
      refine pairFree front.1 (partClosed last (List.take_prefix _ _).isInfix) (.inl front.2)

theorem expressionUnpaired (closed : Closed d.lines) (trimmed : ∀ line ∈ d.lines, line.getLast? ≠ some '\r')
    (selected : expressionOf d s = .ok expression) : ¬ ['\r', '\n'] <:+: expression := by
  obtain ⟨picked, before, text, -, fits⟩ := expressionPicked selected
  have plain := pickedUnpaired closed trimmed text
  have within : dropSemicolon (strip picked) <:+: picked := by
    obtain ⟨front, back, parts, -⟩ := stripSplit picked
    have kept : dropBlanksEnd (strip picked) <+: strip picked := List.rdropWhile_prefix _ _
    have stripped : strip picked <:+: picked := ⟨front, back, by rw [List.append_assoc, ← parts]⟩
    refine List.IsInfix.trans (List.IsPrefix.isInfix ?_) stripped
    unfold dropSemicolon
    dsimp only
    split
    · exact (List.dropLast_prefix _).trans kept
    · exact kept
  have part : ¬ ['\r', '\n'] <:+: dropSemicolon (strip picked) := fun pair => plain (pair.trans within)
  generalize dropSemicolon (strip picked) = expression' at fits part
  unfold accepted? at fits
  split at fits
  · obtain ⟨-, same⟩ := Option.ite_none_right_eq_some.mp fits
    rwa [← Option.some.inj same]
  · split at fits
    · rwa [← Option.some.inj fits]
    · obtain ⟨-, same⟩ := Option.ite_none_right_eq_some.mp fits
      rw [← Option.some.inj same]
      exact @pairFree ['$'] _ (pairClosed (by decide)) part (.inl (by decide))

theorem statementParts (language : String) (expression : List Char) : ∃ opens closes,
    dumpStatement language expression = opens ++ '(' :: (expression ++ ')' :: closes) ∧ '\n' ∉ opens ∧
      '\n' ∉ closes ∧ '\r' ∉ closes := by
  unfold dumpStatement
  dsimp only
  split
  · exact ⟨"console.log".toList, [';'], by simp, by decide, by decide, by decide⟩
  · split
    · exact ⟨"print".toList, [], by simp, by decide, by decide, by decide⟩
    · exact ⟨"var_dump".toList, ";exit;".toList, by simp, by decide, by decide, by decide⟩

theorem addedUnpaired {p : Plan} (language : String) (indents : Indents p.indent)
    (plain : ¬ ['\r', '\n'] <:+: expression) : ¬ ['\r', '\n'] <:+: render p (dumpStatement language expression) := by
  obtain ⟨opens, closes, parts, early, late, last⟩ := statementParts language expression
  have ends : ¬ ['\r', '\n'] <:+: ')' :: closes ++ ['\n'] := by
    refine pairFree (pairClosed (by simp [late])) (by decide) (.inl fun edge => ?_)
    exact absurd (List.mem_of_getLast? edge) (by simp [last])
  have inner : ¬ ['\r', '\n'] <:+: '(' :: (expression ++ (')' :: closes ++ ['\n'])) :=
    @pairFree ['('] _ (pairClosed (by decide)) (pairFree plain ends (.inr (by simp))) (.inl (by decide))
  have statement : ¬ ['\r', '\n'] <:+: opens ++ '(' :: (expression ++ (')' :: closes ++ ['\n'])) :=
    pairFree (pairClosed early) inner (.inr (by simp))
  have indented : ¬ ['\r', '\n'] <:+: p.indent ++ (opens ++ '(' :: (expression ++ (')' :: closes ++ ['\n']))) := by
    refine pairFree (pairClosed indents.flat) statement (.inr fun first => early ?_)
    cases opens with
    | nil => simp at first
    | cons c opens => simp_all
  have whole : render p (dumpStatement language expression) = (if p.leadingNewline then ['\n'] else []) ++
      (p.indent ++ (opens ++ '(' :: (expression ++ (')' :: closes ++ ['\n'])))) := by
    rw [render, parts]
    simp
  rw [whole]
  split
  · exact pairFree (by decide) indented (.inl (by decide))
  · exact indented

end
end DebugSweep.Edit

namespace DebugSweep.Site
open Text Edit

section
variable {s : Site} {args : Arguments} {answer : Value}

namespace Insertion

def added (i : s.Insertion args answer) : List Char := render i.plan (dumpStatement i.language i.expression)

theorem unpaired (i : s.Insertion args answer) : ¬ ['\r', '\n'] <:+: i.added := by
  have trimmed : ∀ line ∈ (Document.ofText i.source).lines, line.getLast? ≠ some '\r' := by
    intro line member
    obtain ⟨raw, -, rfl⟩ := List.mem_map.mp member
    exact dropEndLast '\r' raw
  exact addedUnpaired i.language (planFits (textClosed i.source) i.planned).indents
    (expressionUnpaired (textClosed i.source) trimmed i.selected)

theorem editedText (i : s.Insertion args answer) : ∃ front glue back, Around i.source i.added front glue back ∧
    i.edited.text = unreturned (front ++ glue ++ i.added ++ back) := by
  have held := (expressionSource i.selected).1
  have fits := planFits (textClosed i.source) i.planned
  have bound := applyBound i.applied
  have raw : (rawDocument i.source).text ≠ [] := by
    rw [rawText]
    intro none
    rw [none] at held
    exact held rfl
  have rawBound : i.plan.line ≤ (rawDocument i.source).lines.length := by
    rwa [trimmedLines, List.length_map] at bound
  obtain ⟨front, glue, back, around, whole⟩ :=
    @placedAround (dumpStatement i.language i.expression) i.plan (rawDocument i.source) (rawFits fits) rawBound raw
  rw [rawText] at around
  obtain ⟨above, below⟩ := aroundTrimmed (planSource i.planned).column
  have applied := i.applied
  rw [applyPlaced fits bound fun _ => held] at applied
  have rawClosed : Closed (rawDocument i.source).lines := linesClosed i.source
  refine ⟨front, glue, back, around, ?_⟩
  rw [added, ← whole, ← unreturnedAround _ (textClosed i.source) rawClosed above below, ← Except.ok.inj applied]
  rfl

end Insertion

theorem insertedDumpKeepsIff (inserted : s.insertDump args = .ok answer) :
    ∃ (i : s.Insertion args answer) (front glue back : List Char),
      i.source = front ++ back ∧ (glue = [] ∨ glue = ['\n'] ∧ back = []) ∧
      i.edited.text = unreturned (front ++ glue ++ i.added ++ back) ∧
      (Spliced i.source i.added i.edited.text ↔ Unreturned front ∧ Unreturned back) := by
  obtain ⟨i⟩ := insertionSource inserted
  obtain ⟨front, glue, back, around, text⟩ := i.editedText
  have closes : i.added.getLast? = some '\n' := by simp [Insertion.added, render]
  refine ⟨i, front, glue, back, around.parts, around.glued, text, ?_⟩
  rw [text, around.splicedIff, around.unreturned i.unpaired closes]

end

theorem emptyBlockKept :
    bareSite.insertDump (dumpRequest "if (f($a['k'])) \x7b \x7d\n" 4 14) = .ok emptyBlock.answer ∧
      Spliced emptyBlock.source (render emptyBlock.plan emptyBlock.statement) emptyBlock.edited.text := by
  have asked : emptyBlock.Asked bareSite (dumpRequest "if (f($a['k'])) \x7b \x7d\n" 4 14) :=
    ⟨rfl, by decide +kernel, by decide +kernel⟩
  have inserted := askedInserted (by decide +kernel) asked
  refine ⟨inserted, ?_⟩
  obtain ⟨i, front, glue, back, parts, -, -, kept⟩ := insertedDumpKeepsIff inserted
  have source : i.source = emptyBlock.source :=
    String.ofList_injective (by simpa using i.given.symm.trans asked.source)
  obtain ⟨-, -, -, added, text⟩ := by simpa [Dump.answer] using i.answered
  have added : i.added = render emptyBlock.plan emptyBlock.statement := (String.ofList_injective added).symm
  have text : i.edited.text = emptyBlock.edited.text := (String.ofList_injective text).symm
  rw [source, added, text] at kept
  have plain : '\r' ∉ front ++ back := by
    rw [← parts, source]
    decide
  rw [List.mem_append, not_or] at plain
  exact kept.mpr ⟨plainUnreturned plain.1, plainUnreturned plain.2⟩

def returnEnded : Dump where
  source := "$a;\r\n".toList
  selection := ⟨0, 0, 0, 2⟩
  options := {}
  expression := "$a".toList
  plan := { line := 1, indent := [] }
  edited := .ofText "$a;\nvar_dump($a);exit;\n".toList
  selected := by decide +kernel
  planned := by decide +kernel
  applied := by decide +kernel

theorem returnLost :
    bareSite.insertDump (dumpRequest "$a;\r\n" 0 2) = .ok returnEnded.answer ∧
      ¬ Spliced returnEnded.source (render returnEnded.plan returnEnded.statement) returnEnded.edited.text := by
  refine ⟨askedInserted (by decide +kernel) ⟨rfl, by decide +kernel, by decide +kernel⟩, fun spliced => ?_⟩
  exact absurd spliced.count (by decide +kernel)

end DebugSweep.Site
