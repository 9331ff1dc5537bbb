import DebugSweep.Proofs.Insertions
import DebugSweep.Proofs.Lexemes
import DebugSweep.Proofs.Matching

/-! Braces around a statement that is put into a document. Main statement: where no line ends inside a comment,
a statement whose braces match and that is read from code to code keeps the braces matched, wherever it is put. -/
namespace DebugSweep.Edit
open Text Lexis Clear

def EndInCode (lines : List (List Char)) : Prop := ∀ line ∈ lines, (Mode.code.after none line).exit = {}

section
variable {lines : List (List Char)}

theorem threadedInCode (clear : ∀ read ∈ threaded {} lines, read.exit.inBlockComment = false) : EndInCode lines := by
  induction lines with
  | nil => exact fun _ member => absurd member List.not_mem_nil
  | cons line rest ih =>
    rw [threaded, List.forall_mem_cons, classifyReads] at clear
    obtain ⟨here, later⟩ := clear
    have left : (Mode.code.after none line).exit = {} := by
      rcases exitCases (Mode.code.after none line) with outside | inside
      · exact outside
      · exact absurd ((congrArg LineState.inBlockComment inside).symm.trans here) (by decide)
    have next : (LineState.mode {}).after none line = Mode.code.after none line := rfl
    rw [next, left] at later
    exact List.forall_mem_cons.mpr ⟨left, ih later⟩

theorem EndInCode.behind (ends : EndInCode lines) : stateBehind {} lines = {} := by
  induction lines with
  | nil => rfl
  | cons line rest ih =>
    obtain ⟨here, later⟩ := List.forall_mem_cons.mp ends
    exact (congrArg (stateBehind · rest) here).trans (ih later)

theorem EndInCode.stream (ends : EndInCode lines) (below : List (List Char)) :
    braceStream {} (lines ++ below) = braceStream {} lines ++ braceStream {} below := by
  rw [streamAppend, ends.behind]

end

theorem streamHalves {left right : List Char} (leads : Mode.code.LeadsToCode left) (below : List (List Char)) :
    braceStream {} (left :: right :: below) = braceStream {} ((left ++ right) :: below) := by
  obtain ⟨live, after⟩ := leadsToCodeAppend leads none right
  have whole : braceStream {} ((left ++ right) :: below) = braces (Mode.code.live none (left ++ right)) ++
      braceStream (Mode.code.after none (left ++ right)).exit below := rfl
  have halves : braceStream {} (left :: right :: below) = braces (Mode.code.live none left) ++
      braceStream (Mode.code.after none left).exit (right :: below) := rfl
  rw [whole, live, after, halves, leads none, bracesAppend, List.append_assoc]
  rfl

theorem statementStream {indent statement : List Char} (blank : allBlank indent = true) :
    braces (Mode.code.live none (indent ++ statement)) = braces (Mode.code.live none statement) ∧
      Mode.code.after none (indent ++ statement) = Mode.code.after none statement := by
  obtain ⟨live, after⟩ := leadsToCodeAppend (blankReads blank) none statement
  rw [live, after, bracesAppend, blankNoBraces blank]
  exact ⟨rfl, rfl⟩

theorem depthAround {left part right : List Char} (even : ∀ depth, braceDepth depth part = some depth)
    (balanced : braceDepth 0 (left ++ right) = some 0) : braceDepth 0 (left ++ (part ++ right)) = some 0 := by
  rw [depthAppend] at balanced ⊢
  obtain ⟨depth, level, ends⟩ := Option.bind_eq_some_iff.mp balanced
  rw [level, Option.bind_some, depthAppend, even, Option.bind_some, ends]

theorem openLeads {front blanks behind : List Char} (blank : allBlank blanks = true)
    (code : (Mode.code.classes none (front ++ '\x7b' :: behind))[front.length]? = some .code) :
    Mode.code.LeadsToCode (front ++ '\x7b' :: blanks) := by
  obtain ⟨c, tail, same, reached⟩ := codeReached code
  cases same
  intro next
  rw [afterAppend, List.head?_cons, Option.some_or, reached]
  exact blankReads blank next

section
variable {d : Document} {options : IndentOptions} {p : Plan}

theorem blockLeads {lines : List (List Char)} {n : Nat} {current : List Char}
    (placed : planInBlock? lines n current options = some p) (block : p.leadingNewline = true) :
    p.line = n ∧ Mode.code.LeadsToCode (current.take p.column) := by
  unfold planInBlock? at placed
  obtain ⟨opening, found, rest⟩ := Option.bind_eq_some_iff.mp placed
  -- A plan without a break in front of the statement stands at the start of a line.
  have other (placed : ((nextContent? (n + 1) (lines.drop (n + 1))).bind fun found =>
      if (strip found.2).head? == some '\x7d' then
        some { line := found.1, indent := deeperIndent found.2 options, rule := .blockClose : Plan }
      else none) = some p) : False := by
    obtain ⟨_, -, last⟩ := Option.bind_eq_some_iff.mp placed
    obtain ⟨-, same⟩ := Option.ite_none_right_eq_some.mp last
    cases same
    contradiction
  dsimp only at rest
  split at rest
  · rename_i close closed
    split at rest
    · rename_i between
      cases rest
      refine ⟨rfl, ?_⟩
      obtain ⟨order, closes⟩ := codeIndexFound closed
      obtain ⟨⟨offset, c⟩, first, rfl⟩ := Option.map_eq_some_iff.mp found
      obtain ⟨here, code⟩ := codeMember.mp (List.mem_of_find?_eq_some first)
      obtain ⟨-, opens⟩ := codeIndexFound found
      dsimp only at opens order between ⊢
      have size : (current.take offset).length = offset := by
        have := (List.getElem?_eq_some_iff.mp here).1
        rw [List.length_take]
        omega
      rw [(blockParts opens closes order).1]
      refine @openLeads _ _ (current.drop (offset + 1)) between ?_
      rw [size, ← splitHere opens]
      rwa [classifyReads] at code
    · exact (other rest).elim
  · exact (other rest).elim

theorem planLeads {s : Selection} (planned : plan d s options = .ok p) (block : p.leadingNewline = true) :
    Mode.code.LeadsToCode (((d.lines[p.line]?).getD []).take p.column) := by
  unfold plan at planned
  obtain ⟨⟨⟩, -, placed⟩ := bindOkIff.mp planned
  dsimp only at placed
  split at placed
  · cases placed
    contradiction
  · split at placed
    · cases placed
      contradiction
    · split at placed
      · rename_i found
        cases placed
        obtain ⟨line, leads⟩ := blockLeads found block
        rw [line]
        exact leads
      · cases placed
        contradiction

theorem aroundStream (ends : EndInCode d.lines) (fits : p.Fits d) (bound : p.line ≤ d.lines.length)
    (leads : p.leadingNewline = true → Mode.code.LeadsToCode (((d.lines[p.line]?).getD []).take p.column)) :
    stateBehind {} (p.above d) = {} ∧
      braceStream {} (p.above d ++ p.below d) = braceStream {} d.lines := by
  have early : EndInCode (d.lines.take p.line) := fun line member => ends line (List.take_subset _ _ member)
  rcases Nat.lt_or_eq_of_le bound with inside | last
  · have here : d.lines[p.line]? = some d.lines[p.line] := List.getElem?_eq_getElem inside
    rw [belowInside here, Plan.above, here, Option.getD_some]
    rw [here, Option.getD_some] at leads
    conv => rhs; rhs; rw [splitHere here]
    cases block : p.leadingNewline with
    | false =>
      rw [if_neg (by decide), List.append_nil, fits.column block, List.drop_zero]
      exact ⟨early.behind, rfl⟩
    | true =>
      have leads := leads block
      rw [if_pos rfl, List.append_assoc, early.stream, early.stream, List.singleton_append, streamHalves leads,
        List.take_append_drop]
      refine ⟨EndInCode.behind (List.forall_mem_append.mpr ⟨early, ?_⟩), rfl⟩
      rw [List.forall_mem_singleton, leads none]
      rfl
  · rw [(lastAbove fits last).2, belowLast last, ends.stream]
    exact ⟨ends.behind, List.append_nil _⟩

theorem appliedSomewhere (statement : List Char) (bound : p.line ≤ d.lines.length) :
    ∃ e, apply d p statement = .ok e := by
  rcases Nat.lt_or_eq_of_le bound with inside | last
  · exact ⟨_, applyInside inside⟩
  · exact ⟨_, applyLast last⟩

theorem appliedStream {statement : List Char} {e : Document} (closed : Closed d.lines) (fits : p.Fits d)
    (flat : '\n' ∉ statement) (applied : apply d p statement = .ok e) :
    braceStream {} e.lines = braceStream {} (p.above d ++ (p.indent ++ statement) :: p.below d) := by
  have bound := applyBound applied
  by_cases fresh : p.line = d.lines.length ∧ d.text = []
  · obtain ⟨last, none⟩ := fresh
    have written : render p statement = unlines [p.indent ++ statement, []] := by
      rw [render, (lastAbove fits last).1, unlinesCons, unlinesOne]
      rfl
    have free : Closed [p.indent ++ statement, []] := by simp [Closed, fits.indents.flat, flat]
    rw [applyLast last, if_pos (by simp [none]), written] at applied
    cases applied
    rw [unlinesRead free (by simp), streamReturns, (lastAbove fits last).2, belowLast last]
    -- The document is one empty line at most, which holds no brace.
    rcases emptyLines none with lines | lines
    · rw [lines]
      rfl
    · rw [lines]
      rfl
  · rw [applyPlaced fits bound fun last none => fresh ⟨last, none⟩] at applied
    cases applied
    rw [unlinesRead (placedLacks closed fits.indents.flat flat) (by simp), streamReturns]

end

theorem insertionKeepsBalance {source statement : List Char} (s : Selection) (options : IndentOptions)
    (balanced : (Document.ofText source).checkBalance = .ok ())
    (clear : ∀ read ∈ threaded {} (Document.ofText source).lines, read.exit.inBlockComment = false)
    (flat : '\n' ∉ statement) (outside : (classify statement {}).exit = {})
    (even : Matched (braces (codeOf statement {}).text)) :
    ∃ p e, plan (.ofText source) s options = .ok p ∧ apply (.ofText source) p statement = .ok e ∧
      e.checkBalance = .ok () := by
  have closed := textClosed source
  obtain ⟨p, planned, found⟩ := planBalanced balanced s options
  have bound := found.bound (textHeld source)
  have fits := planFits closed planned
  obtain ⟨e, applied⟩ := appliedSomewhere statement bound
  obtain ⟨front, around⟩ := aroundStream (threadedInCode clear) fits bound (planLeads planned)
  obtain ⟨live, after⟩ := @statementStream p.indent statement fits.indents.blank
  refine ⟨p, e, planned, applied, ?_⟩
  rw [Document.checkBalance, checkBracesIff] at balanced ⊢
  rw [← around, streamAppend, front] at balanced
  rw [classifyReads] at outside
  rw [codeText] at even
  have middle : braceStream {} ((p.indent ++ statement) :: p.below (.ofText source)) =
      braces (Mode.code.live none statement) ++ braceStream {} (p.below (.ofText source)) := by
    change braces (Mode.code.live none (p.indent ++ statement)) ++
      braceStream (Mode.code.after none (p.indent ++ statement)).exit _ = _
    rw [live, after]
    exact congrArg (_ ++ braceStream · _) outside
  rw [appliedStream closed fits flat applied, streamAppend, front, middle]
  exact depthAround even.depth balanced

def quotedBrace : List Char := "if ($b) \x7b dd('\x7d'); \x7d // \x7b".toList

theorem quotedBraceAdded : ∃ p e, plan (.ofText blockOnLine) ⟨1, 4, 1, 6⟩ {} = .ok p ∧
    apply (.ofText blockOnLine) p quotedBrace = .ok e ∧ e.checkBalance = .ok () ∧ e.lines =
      ["f(); // \x7b", "if ($a) \x7b ", "    if ($b) \x7b dd('\x7d'); \x7d // \x7b", "\x7d g();"].map String.toList := by
  have pair : braces (codeOf quotedBrace {}).text = ['\x7b', '\x7d'] := by decide +kernel
  obtain ⟨p, e, planned, applied, kept⟩ := @insertionKeepsBalance blockOnLine quotedBrace ⟨1, 4, 1, 6⟩ {}
    (by decide +kernel) (by decide +kernel) (by decide +kernel) (by decide +kernel) (pair ▸ .pair .none .none)
  have known : plan (.ofText blockOnLine) ⟨1, 4, 1, 6⟩ {} = .ok ⟨1, 10, "    ".toList, true, .emptyBlock⟩ := by
    decide +kernel
  obtain rfl := Except.ok.inj (planned.symm.trans known)
  have edited : apply (.ofText blockOnLine) ⟨1, 10, "    ".toList, true, .emptyBlock⟩ quotedBrace =
      .ok ⟨["f(); // \x7b", "if ($a) \x7b ", "    if ($b) \x7b dd('\x7d'); \x7d // \x7b", "\x7d g();"].map
        String.toList⟩ := by
    decide +kernel
  exact ⟨_, e, planned, applied, kept, congrArg Document.lines (Except.ok.inj (applied.symm.trans edited))⟩

end DebugSweep.Edit
