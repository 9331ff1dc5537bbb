import DebugSweep.Edit.Insertion
import DebugSweep.Proofs.Cutting
import DebugSweep.Proofs.Location

/-! Braces of a text before and after clearing. The check of a document counts the braces of its
code, which make up one stream over all its lines. Main statements: taking a statement out of a
balanced stream leaves it balanced exactly when the statement holds as many opening as closing
braces, and so cutting any number of such statements keeps the balance. -/
namespace DebugSweep.Clear
open Text Lexis Edit Scan

def isBrace (c : Char) : Bool := c == '\x7b' || c == '\x7d'

def braces (text : List Char) : List Char := text.filter isBrace

theorem bracesAppend (left right : List Char) : braces (left ++ right) = braces left ++ braces right :=
  List.filter_append ..

theorem depthBraces (depth : Nat) (text : List Char) :
    braceDepth depth (braces text) = braceDepth depth text := by
  induction text generalizing depth with
  | nil => rfl
  | cons c rest ih =>
    by_cases brace : isBrace c = true
    · rw [braces, List.filter_cons_of_pos brace]
      change braceDepth depth (c :: braces rest) = _
      simp only [braceDepth, ih]
    · rw [braces, List.filter_cons_of_neg brace]
      change braceDepth depth (braces rest) = _
      have plain : c ≠ '\x7b' ∧ c ≠ '\x7d' := by simpa [isBrace] using brace
      simp [braceDepth, ih, plain.1, plain.2]

theorem depthAppend (depth : Nat) (left right : List Char) :
    braceDepth depth (left ++ right) = (braceDepth depth left).bind (braceDepth · right) := by
  induction left generalizing depth with
  | nil => rfl
  | cons c rest ih =>
    simp only [List.cons_append, braceDepth]
    split
    · exact ih _
    · split
      · split
        · rfl
        · exact ih _
      · exact ih _

theorem depthCount {depth final : Nat} {text : List Char} (ends : braceDepth depth text = some final) :
    depth + text.count '\x7b' = final + text.count '\x7d' := by
  induction text generalizing depth with
  | nil =>
    cases Option.some.inj ends
    rfl
  | cons c rest ih =>
    simp only [braceDepth] at ends
    split at ends
    · rename_i opening
      have := ih ends
      obtain rfl : c = '\x7b' := by simpa using opening
      simp only [List.count_cons_self, List.count_cons, show ('\x7b' == '\x7d') = false from rfl]
      simp only [Bool.false_eq_true, if_false]
      omega
    · split at ends
      · rename_i closing
        split at ends
        · contradiction
        · rename_i positive
          have := ih ends
          have above : depth ≠ 0 := by simpa using positive
          obtain rfl : c = '\x7d' := by simpa using closing
          simp only [List.count_cons_self, List.count_cons, show ('\x7d' == '\x7b') = false from rfl]
          simp only [Bool.false_eq_true, if_false]
          omega
      · rename_i opening closing
        have := ih ends
        simpa [List.count_cons, opening, closing] using this

theorem balancedWithout {left part right : List Char}
    (balanced : braceDepth 0 (left ++ part ++ right) = some 0) :
    braceDepth 0 (left ++ right) = some 0 ↔ part.count '\x7b' = part.count '\x7d' := by
  simp only [depthAppend, Option.bind_assoc, Option.bind_eq_some_iff] at balanced
  obtain ⟨d, atLeft, e, atPart, atRight⟩ := balanced
  have whole := depthCount atPart
  simp only [depthAppend, atLeft, Option.bind_some]
  constructor
  · intro ends
    have first := depthCount ends
    have second := depthCount atRight
    omega
  · intro even
    obtain rfl : d = e := by omega
    exact atRight

def braceStream (state : LineState) : List (List Char) → List Char
  | [] => []
  | line :: rest =>
      braces (state.mode.live none line) ++ braceStream (state.mode.after none line).exit rest

theorem streamAppend (state : LineState) (left right : List (List Char)) :
    braceStream state (left ++ right) =
      braceStream state left ++ braceStream (stateBehind state left) right := by
  induction left generalizing state with
  | nil => rfl
  | cons line rest ih => simp [braceStream, stateBehind, ih]

theorem checkBracesIff (state : LineState) (depth number : Nat) (lines : List (List Char)) :
    checkBraces state depth number lines = .ok () ↔
      braceDepth depth (braceStream state lines) = some 0 := by
  induction lines generalizing state depth number with
  | nil =>
    simp only [checkBraces, braceStream, braceDepth]
    split <;> simp_all
  | cons line rest ih =>
    simp only [checkBraces, braceStream, codeText, codeExit, depthAppend, depthBraces]
    cases braceDepth depth (state.mode.live none line) with
    | none => simp
    | some next => simpa using ih _ next _

theorem bracesReturns (state : LineState) (line : List Char) :
    braces (state.mode.live none (dropEnd '\r' line)) = braces (state.mode.live none line) := by
  obtain ⟨_, tail, returns, split⟩ := returnsRead state line
  have none : braces tail = [] := by
    apply List.filter_eq_nil_iff.mpr
    intro c member
    simp [returns c member, isBrace]
  rw [split, bracesAppend, none, List.append_nil]

theorem streamReturns (state : LineState) (lines : List (List Char)) :
    braceStream state (lines.map (dropEnd '\r')) = braceStream state lines := by
  induction lines generalizing state with
  | nil => rfl
  | cons line rest ih =>
    simp only [List.map_cons, braceStream, bracesReturns, (returnsRead state line).1, ih]

theorem balanceIff (source : List Char) :
    (Document.ofText source).checkBalance = .ok () ↔
      braceDepth 0 (braceStream {} (lines source)) = some 0 := by
  rw [Document.checkBalance, checkBracesIff, Document.ofText, streamReturns]

theorem blankReads {text : List Char} (blank : allBlank text = true) (next : Option Char) :
    Mode.code.after next text = .code := by
  induction text with
  | nil => rfl
  | cons c rest ih =>
    simp only [allBlank, List.all_cons, Bool.and_eq_true] at blank
    rw [Mode.after, blankStep blank.1]
    exact ih blank.2

theorem blankNoBraces {text : List Char} (blank : allBlank text = true) (mode : Mode)
    (next : Option Char) : braces (mode.live next text) = [] := by
  apply List.filter_eq_nil_iff.mpr
  intro c member
  have here := List.all_eq_true.mp blank c ((liveSublist mode next text).subset member)
  have opening : c ≠ '\x7b' := blankOther here rfl
  have closing : c ≠ '\x7d' := blankOther here rfl
  simp [isBrace, opening, closing]

theorem blankStateClear {state : LineState} {text : List Char}
    (known : state = {} ∨ state = { inBlockComment := true }) (blank : allBlank text = true)
    (leads : state.mode.LeadsToCode text) : state = {} := by
  rcases known with clear | rfl
  · exact clear
  · -- A comment that is open before a blank text is open behind it.
    have stuck := blanksExit blank (stateFits { inBlockComment := true } text.head?)
    rw [leads none] at stuck
    contradiction

def Ends (part after : List Char) : Prop :=
  Mode.code.LeadsToCode part ∨ (allBlank after = true ∧ (Mode.code.after none part).exit = {})

theorem endsRead {part after : List Char} (ends : Ends part after) :
    braces (Mode.code.live none (part ++ after)) =
        braces (Mode.code.live none part) ++ braces (Mode.code.live none after) ∧
      (Mode.code.after none (part ++ after)).exit = (Mode.code.after none after).exit := by
  rcases ends with leads | ⟨blank, closed⟩
  · obtain ⟨live, after⟩ := leadsToCodeAppend leads none after
    rw [live, after, bracesAppend]
    exact ⟨rfl, rfl⟩
  · obtain ⟨exit, live⟩ := blanksRead blank (outerFits (Or.inl rfl) (part ++ after).head?)
    rw [exit, live, closed, bracesAppend, blankNoBraces blank, blankNoBraces blank, blankReads blank]
    exact ⟨rfl, rfl⟩

-- Whether the shortened line stays or is dropped, the stream loses the braces of the part alone.
theorem streamCut {above below : List (List Char)} {before part after : List Char}
    (leads : (stateBehind {} above).mode.LeadsToCode before) (ends : Ends part after) :
    ∃ left right, braceStream {} (above ++ (before ++ part ++ after) :: below) =
        left ++ braces (Mode.code.live none part) ++ right ∧
      braceStream {} (above ++ remains (before ++ after) ++ below) = left ++ right := by
  have known := stateBehindCases (Or.inl rfl) above
  generalize hstate : stateBehind {} above = state at leads known
  have whole := leadsToCodeAppend leads none (part ++ after)
  have inner := endsRead ends
  have short := leadsToCodeAppend leads none after
  refine ⟨braceStream {} above ++ braces (state.mode.live none before),
    braces (Mode.code.live none after) ++ braceStream (Mode.code.after none after).exit below, ?_, ?_⟩
  · rw [streamAppend, hstate, braceStream, List.append_assoc before, whole.1, whole.2, bracesAppend,
      inner.1, inner.2]
    simp only [List.append_assoc]
  · unfold remains
    split
    · rename_i blank
      have parts : allBlank before = true ∧ allBlank after = true := by
        simpa [allBlank, List.all_append] using blank
      have clear := blankStateClear known parts.1 leads
      rw [blankNoBraces parts.1, blankNoBraces parts.2, blankReads parts.2, List.append_nil,
        List.append_nil, streamAppend, hstate, clear]
      rfl
    · rw [List.append_assoc, streamAppend, hstate, List.singleton_append, braceStream, short.1, short.2]
      simp only [bracesAppend, List.append_assoc]

def visible (text : List Char) : Nat := text.countP (fun c => !isBlank c)

theorem visibleAppend (left right : List Char) : visible (left ++ right) = visible left + visible right :=
  List.countP_append

theorem visibleNone {text : List Char} : visible text = 0 ↔ allBlank text = true := by
  simp [visible, allBlank, List.countP_eq_zero]

-- A visible character stands there, the lines and the text before it lead to code, and the text
-- from it on has so many visible characters at most.
def OpenAt (lines : List (List Char)) (n column limit : Nat) : Prop :=
  ∃ text c, lines[n]? = some text ∧ text[column]? = some c ∧ isBlank c = false ∧
    (stateBehind {} (lines.take n)).mode.LeadsToCode (text.take column) ∧
    visible (text.drop column) ≤ limit

theorem removeOpen {cut : Cut} {f : Finding} {n column limit : Nat} (number : f.lineNumber = n + 1)
    (place : f.column = column) (opens : OpenAt cut.lines n column limit) :
    (cut.remove f).lines = cut.lines ∨
    ∃ above before after below,
      cut.lines = above ++ (before ++ f.content.toList ++ after) :: below ∧ above.length = n ∧
      before.length = column ∧ (stateBehind {} above).mode.LeadsToCode before ∧
      visible (f.content.toList ++ after) ≤ limit ∧
      (cut.remove f).lines = above ++ remains (before ++ after) ++ below := by
  rcases removeCases cut f with same | ⟨above, line, below, parts, atLine, stands, result⟩
  · exact Or.inl same
  · have size : above.length = n := by omega
    rw [place, standsAtNat] at stands
    obtain ⟨inside, after, split⟩ := stands
    have width : (line.take column).length = column := by simp [inside]
    obtain ⟨line', c, found, _, _, leads, few⟩ := opens
    have same : line' = line := by
      rw [parts, ← size] at found
      simpa using found.symm
    rw [same, parts, ← size, List.take_left] at leads
    have behind : line.drop column = f.content.toList ++ after := by
      conv_lhs => rw [split, List.append_assoc]
      exact List.drop_left' width
    rw [same, behind] at few
    refine Or.inr ⟨above, line.take column, after, below, by rw [← split, parts], size, width, leads,
      few, ?_⟩
    have shortened := @cutLineParts (line.take column) f.content.toList after
    rw [width, ← split] at shortened
    rw [result, place, shortened]

theorem openStays {above below : List (List Char)} {before part after : List Char}
    {n column limit : Nat} (opens : OpenAt (above ++ (before ++ part ++ after) :: below) n column limit)
    (earlier : n < above.length ∨ (n = above.length ∧ column < before.length)) :
    OpenAt (above ++ remains (before ++ after) ++ below) n column limit := by
  obtain ⟨line, c, found, atColumn, shown, leads, few⟩ := opens
  rcases earlier with short | ⟨rfl, left⟩
  · refine ⟨line, c, ?_, atColumn, shown, ?_, few⟩
    · rw [List.getElem?_append_left short] at found
      rwa [List.append_assoc, List.getElem?_append_left short]
    · rw [List.take_append_of_le_length (Nat.le_of_lt short)] at leads
      rwa [List.append_assoc, List.take_append_of_le_length (Nat.le_of_lt short)]
  · obtain rfl : before ++ part ++ after = line := by simpa using found
    have first : before[column]? = some c := by
      rwa [List.append_assoc, List.getElem?_append_left left] at atColumn
    have stays : allBlank (before ++ after) = false := by
      apply Bool.eq_false_iff.mpr
      intro blank
      have every := List.all_eq_true.mp blank c
        (List.mem_append_left _ (List.mem_of_getElem? first))
      rw [every] at shown
      contradiction
    refine ⟨before ++ after, c, by simp [remains, stays], ?_, shown, ?_, ?_⟩
    · rwa [List.getElem?_append_left left]
    · rw [List.take_left, List.append_assoc,
        List.take_append_of_le_length (Nat.le_of_lt left)] at leads
      rwa [List.append_assoc, List.take_left, List.take_append_of_le_length (Nat.le_of_lt left)]
    · rw [List.append_assoc, List.drop_append_of_le_length (Nat.le_of_lt left)] at few
      rw [List.drop_append_of_le_length (Nat.le_of_lt left)]
      simp only [visibleAppend] at few ⊢
      omega

def EvenBraces (f : Finding) : Prop :=
  (codeOf f.content.toList {}).text.count '\x7b' = (codeOf f.content.toList {}).text.count '\x7d'

instance (f : Finding) : Decidable (EvenBraces f) := inferInstanceAs (Decidable (_ = _))

theorem evenBracesIff (f : Finding) : EvenBraces f ↔
    (braces (Mode.code.live none f.content.toList)).count '\x7b' =
      (braces (Mode.code.live none f.content.toList)).count '\x7d' := by
  rw [braces, List.count_filter rfl, List.count_filter rfl, EvenBraces, codeText]
  rfl

theorem cutBalancedIff {above below : List (List Char)} {before after : List Char} {f : Finding}
    (leads : (stateBehind {} above).mode.LeadsToCode before) (ends : Ends f.content.toList after)
    (balanced : braceDepth 0
      (braceStream {} (above ++ (before ++ f.content.toList ++ after) :: below)) = some 0) :
    braceDepth 0 (braceStream {} (above ++ remains (before ++ after) ++ below)) = some 0 ↔
      EvenBraces f := by
  obtain ⟨left, right, whole, short⟩ := streamCut leads ends
  rw [short, evenBracesIff]
  rw [whole] at balanced
  exact balancedWithout balanced

-- A finding whose place is open. It leads from code to code, or as long as it stands nothing but
-- blanks stand behind it, since its own visible characters are all that there are.
def Loose (lines : List (List Char)) (f : Finding) : Prop :=
  ∃ n column limit : Nat, f.lineNumber = n + 1 ∧ f.column = column ∧ OpenAt lines n column limit ∧
    (Mode.code.LeadsToCode f.content.toList ∨
      (limit ≤ visible f.content.toList ∧ (Mode.code.after none f.content.toList).exit = {}))

theorem looseStays {cut : Cut} {f g : Finding} (cutting : Loose cut.lines f) (loose : Loose cut.lines g)
    (earlier : g.lineNumber < f.lineNumber ∨ (g.lineNumber = f.lineNumber ∧ g.column < f.column)) :
    Loose (cut.remove f).lines g := by
  obtain ⟨n, column, limit, number, place, opens, _⟩ := cutting
  obtain ⟨k, offset, limit', number', place', opens', closed'⟩ := loose
  refine ⟨k, offset, limit', number', place', ?_, closed'⟩
  rcases removeOpen number place opens with
    same | ⟨above, before, after, below, parts, rfl, rfl, _, _, result⟩
  · rwa [same]
  · rw [result]
    rw [parts] at opens'
    exact openStays opens' (by omega)

theorem removeBalanced {cut : Cut} {f : Finding} (loose : Loose cut.lines f) (even : EvenBraces f)
    (balanced : braceDepth 0 (braceStream {} cut.lines) = some 0) :
    braceDepth 0 (braceStream {} (cut.remove f).lines) = some 0 := by
  obtain ⟨n, column, limit, number, place, opens, closed⟩ := loose
  rcases removeOpen number place opens with
    same | ⟨above, before, after, below, parts, _, _, leads, few, result⟩
  · rwa [same]
  · have ends : Ends f.content.toList after := by
      rcases closed with code | ⟨own, exit⟩
      · exact Or.inl code
      · rw [visibleAppend] at few
        exact Or.inr ⟨visibleNone.mp (by omega), exit⟩
    rw [result]
    rw [parts] at balanced
    exact (cutBalancedIff leads ends balanced).mpr even

-- Findings are cut from the last to the first, so every later one is still loose when its turn comes.
theorem foldBalanced {findings : List Finding} {cut : Cut}
    (order : findings.Pairwise (fun f g =>
      g.lineNumber < f.lineNumber ∨ (g.lineNumber = f.lineNumber ∧ g.column < f.column)))
    (loose : ∀ f ∈ findings, Loose cut.lines f) (even : ∀ f ∈ findings, EvenBraces f)
    (balanced : braceDepth 0 (braceStream {} cut.lines) = some 0) :
    braceDepth 0 (braceStream {} (findings.foldl Cut.remove cut).lines) = some 0 := by
  induction findings generalizing cut with
  | nil => exact balanced
  | cons f rest ih =>
    obtain ⟨first, order⟩ := List.pairwise_cons.mp order
    have here := loose f List.mem_cons_self
    apply ih order
    · intro g member
      exact looseStays here (loose g (List.mem_cons_of_mem _ member)) (first g member)
    · intro g member
      exact even g (List.mem_cons_of_mem _ member)
    · exact removeBalanced here (even f List.mem_cons_self) balanced

end DebugSweep.Clear
