import DebugSweep.Proofs.Anchors
import DebugSweep.Proofs.Expressions

/-! Lines that hold a dump. Main statement: on a line that starts in code and holds a dump behind blanks, the
whole dump is reported as one statement, if its expression ends in code and closes the brackets that it
opens; in a comment, or with a bracket left open, nothing of it is. -/
namespace DebugSweep.Lexis
open Text

theorem keptAppend (offset : Nat) {left : List Char} {classes : List CharClass}
    (same : classes.length = left.length) (right : List Char) (more : List CharClass) :
    kept offset (left ++ right) (classes ++ more) =
      kept offset left classes ++ kept (offset + left.length) right more := by
  induction left generalizing offset classes with
  | nil =>
    obtain rfl := List.length_eq_zero_iff.mp same
    rfl
  | cons c left ih =>
    cases classes with
    | nil => contradiction
    | cons cls classes =>
      have later := ih (offset + 1) (Nat.succ.inj same)
      have size : offset + 1 + left.length = offset + (left.length + 1) := by omega
      simp only [List.cons_append, kept, later, List.length_cons, size]
      split <;> rfl

theorem charBehind {state : LineState} {left right : List Char} {c : Char}
    (reached : state.mode.after (some c) left = .code)
    (code : (Mode.step .code c right.head?).1 = .code) :
    (codeOf (left ++ c :: right) state).chars[(state.mode.live (some c) left).length]? =
      some (left.length, c) := by
  rw [codeChars, classifyReads, classesAppend, List.head?_cons, Option.some_or, reached,
    keptAppend 0 (classesLength _ _ _)]
  have size : (kept 0 left (state.mode.classes (some c) left)).length =
      (state.mode.live (some c) left).length := by
    rw [← keptLive state.mode (some c) 0, List.length_map]
  rw [List.getElem?_append_right (by omega), size, Nat.sub_self]
  simp [Mode.classes, kept, code]

theorem offsetBehind {state : LineState} {left right : List Char} {c : Char}
    (reached : state.mode.after (some c) left = .code)
    (code : (Mode.step .code c right.head?).1 = .code) :
    (codeOf (left ++ c :: right) state).rawOffset (state.mode.live (some c) left).length = left.length :=
  rawOffsetAt (charBehind reached code)

theorem haltTailBehind (left : List Char) {right : List Char} (halts : hasHaltTail right = true) :
    hasHaltTail (left ++ right) = true := by
  induction left with
  | nil => exact halts
  | cons c left ih => rw [List.cons_append, hasHaltTail, ih, Bool.or_true]

theorem blankUnbound {c : Char} (blank : isBlank c = true) : bindsToken c = false := by
  have every : Scan.blanks.all (fun c => !bindsToken c) = true := by decide +kernel
  simpa using List.all_eq_true.mp every c (Scan.blankListed blank)

theorem mentionedBehind {indent text : List Char} (blank : allBlank indent = true)
    (here : tokenHere text = true) (some : text ≠ []) {before : Option Char}
    (free : before.any bindsToken = false) : mentions before (indent ++ text) = true := by
  induction indent generalizing before with
  | nil =>
    obtain ⟨c, rest, rfl⟩ := List.exists_cons_of_ne_nil some
    rw [List.nil_append, mentions, here, free]
    rfl
  | cons c indent ih =>
    rw [allBlank, List.all_cons, Bool.and_eq_true] at blank
    rw [List.cons_append, mentions, ih blank.2 (by simpa using blankUnbound blank.1), Bool.or_true]

end DebugSweep.Lexis

namespace DebugSweep.Scan
open Lexis Text Edit

theorem haltedEnd (front : List Char) (start : Nat) :
    statementEnd (front ++ "exit;".toList) start = (front ++ "exit;".toList).length ∨
      statementEnd (front ++ "exit;".toList) start ≤ front.length := by
  unfold statementEnd
  split
  · rename_i offset found
    have here := (codeMember.mp (terminatorInside found)).1
    rw [List.getElem?_drop] at here
    by_cases early : start + offset < front.length
    · exact .inr early
    · left
      rw [List.getElem?_append_right (by omega)] at here
      have place : start + offset - front.length = 4 := by
        match start + offset - front.length, here with
        | 4, _ => rfl
        | n + 5, here => simp at here
      rw [List.length_append]
      show start + offset + 1 = front.length + 5
      omega
  · exact .inl rfl

theorem haltPlaced {front : List Char} (edge : front.getLast? = some ';') :
    findHaltFrom? (front ++ "exit;".toList) front.length = some front.length ∧
      statementEnd (front ++ "exit;".toList) front.length = (front ++ "exit;".toList).length := by
  constructor
  · rw [findHaltFrom?, List.take_left, List.drop_left, edge]
    rfl
  · rw [statementEnd, List.drop_left, List.length_append]
    rfl

theorem haltNowhere {line : List Char} {start : Nat} (past : line.length ≤ start) :
    findHaltFrom? line start = none := by
  rw [findHaltFrom?, List.drop_of_length_le past]
  rfl

theorem findingSeverity {origin : Origin} {number : Int} {line : List Char} {code : CodeLine} {m : Merged}
    {f : Finding} (found : finding? origin number line code m = some f) :
    f.severity = severityOf f.content.toList := by
  unfold finding? at found
  simp only [Option.bind_eq_bind, Option.bind_eq_some_iff] at found
  obtain ⟨⟨start, stop⟩, -, last⟩ := found
  dsimp only at last
  split at last
  · contradiction
  · cases Option.some.inj last
    rw [String.toList_ofList]

def dumpRow (number : Nat) (indent expression : List Char) (state : LineState) : Row :=
  ⟨number, indent ++ dumpStatement "php" expression, state⟩

def dumpFront (indent expression : List Char) : List Char :=
  (indent ++ "var_dump(".toList) ++ (expression ++ ");".toList)

theorem dumpSpelling (expression : List Char) :
    dumpStatement "php" expression = "var_dump(".toList ++ expression ++ ");exit;".toList := rfl

theorem dumpParts (indent expression : List Char) :
    indent ++ dumpStatement "php" expression = dumpFront indent expression ++ "exit;".toList := by
  rw [dumpSpelling, dumpFront]
  simp

def dumpMerged (indent live : List Char) : Merged where
  segment := ⟨indent ++ "var_dump".toList ++ '(' :: live ++ [')', ';'], 0,
    (indent ++ "var_dump".toList).length + live.length + 2⟩
  kind := .varDump
  halt := some ⟨"exit".toList ++ [';'], (indent ++ "var_dump".toList).length + live.length + 3,
    (indent ++ "var_dump".toList).length + live.length + 3 + 4⟩

section
variable {indent expression : List Char}

theorem frontUnmarked (blank : allBlank indent = true) :
    (indent ++ "var_dump(".toList).all unmarked = true := by
  rw [List.all_append, blanksUnmarked blank]
  rfl

theorem frontPlain (blank : allBlank indent = true) :
    (indent ++ "var_dump".toList).all Cutter.plain = true := by
  rw [List.all_append, Cutter.blanksPlain blank]
  rfl

theorem frontRead (blank : allBlank indent = true) (ends : Mode.code.after none expression = .code)
    (next : Option Char) :
    Mode.code.after next (dumpFront indent expression) = .code ∧
      Mode.code.live next (dumpFront indent expression) =
        indent ++ "var_dump".toList ++ '(' :: Mode.code.live none expression ++ [')', ';'] := by
  have front := unmarkedRead (frontUnmarked blank)
  have behind : ((");".toList).head?.or next) = some ')' := rfl
  have slash : some ')' ≠ some '/' := by decide
  have star : some ')' ≠ some '*' := by decide
  rw [dumpFront, afterAppend, liveAppend, (front _).1, (front _).2, afterAppend, liveAppend, behind,
    afterPlain _ _ slash star, livePlain _ _ slash star, ends]
  refine ⟨rfl, ?_⟩
  have last : Mode.code.live next ");".toList = [')', ';'] := rfl
  rw [last]
  simp

theorem dumpCode (number : Nat) (blank : allBlank indent = true)
    (ends : Mode.code.after none expression = .code) :
    (dumpRow number indent expression {}).code.text = indent ++ "var_dump".toList ++
      '(' :: Mode.code.live none expression ++ ')' :: ';' :: ("exit".toList ++ [';']) := by
  have front := frontRead blank ends
  have text : (dumpRow number indent expression {}).code.text =
      Mode.code.live none (indent ++ dumpStatement "php" expression) := codeText _ _
  have last : Mode.code.live none "exit;".toList = "exit;".toList := rfl
  rw [text, dumpParts, liveAppend, (front _).1, (front _).2, last]
  simp

theorem dumpKind (blank : allBlank indent = true) (rest : List Char) :
    kindOf? (indent ++ "var_dump".toList ++ '(' :: rest) = some .varDump := by
  rw [List.append_assoc, kindBehindBlanks blank]
  rfl

theorem dumpMentioned (blank : allBlank indent = true) (rest : List Char) :
    mentionsToken (indent ++ "var_dump".toList ++ '(' :: rest) = true := by
  rw [List.append_assoc]
  exact mentionedBehind blank rfl (by simp) rfl

theorem dumpStatements (number : Nat) (blank : allBlank indent = true)
    (ends : Mode.code.after none expression = .code)
    (nests : opened [] [] (Mode.code.live none expression) = some []) :
    (dumpRow number indent expression {}).statements = [dumpMerged indent (Mode.code.live none expression)] := by
  have code := dumpCode number blank ends
  have halt : isHaltOnly ("exit".toList ++ [';']) = true := rfl
  have words : "exit".toList.all Cutter.plain = true := rfl
  have mentioned : mentionsToken (dumpRow number indent expression {}).code.text = true := by
    rw [code, List.append_assoc]
    exact dumpMentioned blank _
  have known : kindOf? (indent ++ "var_dump".toList ++ '(' :: Mode.code.live none expression ++ [')', ';']) =
      some .varDump := by
    rw [List.append_assoc]
    exact dumpKind blank _
  rw [Row.statements, if_pos mentioned, code, segmentsCall (frontPlain blank) nests words, merge]
  dsimp only
  rw [known]
  dsimp only
  rw [if_pos halt]
  rfl

theorem dumpAnchor (number : Nat) (blank : allBlank indent = true) (live : List Char) :
    (dumpRow number indent expression {}).anchor (dumpMerged indent live) = indent.length := by
  obtain ⟨after, blanks⟩ := unmarkedRead (blanksUnmarked blank) (some 'v')
  have offset := @offsetBehind {} indent ("ar_dump(".toList ++ expression ++ ");exit;".toList) 'v' after rfl
  have leading : (dumpMerged indent live).segment.leading = indent.length := by
    have front : (indent ++ 'v' :: ("ar_dump".toList ++ '(' :: live ++ [')', ';'])).takeWhile isBlank = indent := by
      rw [List.takeWhile_append_of_pos (List.all_eq_true.mp blank)]
      simp [isBlank]
    simpa [Segment.leading, dumpMerged] using congrArg List.length front
  change (codeOf _ {}).rawOffset (Mode.code.live (some 'v') indent).length = _ at offset
  rw [blanks] at offset
  rw [Row.anchor, leading]
  exact offset

theorem haltAnchor (number : Nat) (blank : allBlank indent = true)
    (ends : Mode.code.after none expression = .code) :
    (dumpRow number indent expression {}).code.rawOffset
      ((indent ++ "var_dump".toList).length + (Mode.code.live none expression).length + 3 : Nat) =
        (dumpFront indent expression).length := by
  obtain ⟨after, live⟩ := frontRead blank ends (some 'e')
  have offset := @offsetBehind {} (dumpFront indent expression) "xit;".toList 'e' after rfl
  change (codeOf _ {}).rawOffset (Mode.code.live (some 'e') (dumpFront indent expression)).length = _ at offset
  rw [live] at offset
  have line : (dumpRow number indent expression {}).code =
      codeOf (dumpFront indent expression ++ "exit;".toList) {} := by rw [← dumpParts]; rfl
  rw [line, ← offset]
  congr 2
  simp only [List.length_append, List.length_cons, List.length_nil]
  omega

theorem dumpStop (number : Nat) (blank : allBlank indent = true)
    (ends : Mode.code.after none expression = .code) :
    (dumpRow number indent expression {}).stop (dumpMerged indent (Mode.code.live none expression)) =
      (indent ++ dumpStatement "php" expression).length := by
  have line : (dumpRow number indent expression {}).line = dumpFront indent expression ++ "exit;".toList :=
    dumpParts indent expression
  have edge : (dumpFront indent expression).getLast? = some ';' := by
    rw [dumpFront, List.getLast?_append, List.getLast?_append]
    rfl
  have place : (dumpRow number indent expression {}).haltPlace?
      (dumpMerged indent (Mode.code.live none expression)) =
      (findHaltFrom? (dumpFront indent expression ++ "exit;".toList)
        (max (statementEnd (dumpFront indent expression ++ "exit;".toList) indent.length)
          (dumpFront indent expression).length)).or
      (findHaltFrom? (dumpFront indent expression ++ "exit;".toList)
        (statementEnd (dumpFront indent expression ++ "exit;".toList) indent.length)) := by
    rw [← haltAnchor number blank ends, ← line, ← dumpAnchor number blank (Mode.code.live none expression)]
    rfl
  rw [Row.stop, place, line, dumpAnchor number blank, dumpParts]
  rcases haltedEnd (dumpFront indent expression) indent.length with whole | early
  · rw [whole, haltNowhere (Nat.le_max_left _ _), haltNowhere (Nat.le_refl _)]
    exact whole
  · rw [Nat.max_eq_right early, (haltPlaced edge).1]
    exact (haltPlaced edge).2

theorem dumpSpelled (number : Nat) (blank : allBlank indent = true) (live : List Char) :
    (dumpRow number indent expression {}).Spells (dumpMerged indent live) := by
  rw [Row.Spells, dumpAnchor number blank]
  have behind : (dumpRow number indent expression {}).line.drop indent.length =
      "var_dump".toList ++ '(' :: (expression ++ ");exit;".toList) := List.drop_left
  have token : dropToken? Kind.varDump.token.toList ("var_dump".toList ++ '(' :: (expression ++ ");exit;".toList)) =
      some ('(' :: (expression ++ ");exit;".toList)) := rfl
  rw [behind]
  exact Option.isSome_of_mem token

theorem dumpSeverity (ends : Mode.code.after none expression = .code) :
    severityOf (dumpStatement "php" expression) = .error := by
  have code : (codeOf (dumpStatement "php" expression) {}).text = _ := @dumpCode [] expression 0 rfl ends
  have halts : hasHaltTail (codeOf (dumpStatement "php" expression) {}).text = true := by
    rw [code]
    apply haltTailBehind
    rfl
  rw [severityOf, if_pos halts]

theorem dumpStripped (expression : List Char) :
    strip (dumpStatement "php" expression) = dumpStatement "php" expression := by
  have front : dropBlanks (dumpStatement "php" expression) = dumpStatement "php" expression := rfl
  have back : dumpStatement "php" expression = "var_dump(".toList ++ expression ++ ");exit".toList ++ [';'] := by
    rw [dumpSpelling]
    simp
  rw [strip, front, dropBlanksEnd, back]
  simp [isBlank]

theorem dumpFound (origin : Origin) (number : Nat) (blank : allBlank indent = true)
    (ends : Mode.code.after none expression = .code)
    (nests : opened [] [] (Mode.code.live none expression) = some []) :
    ∃ f ∈ (dumpRow number indent expression {}).findings origin, f.kind = .varDump ∧ f.severity = .error ∧
      f.content = String.ofList (dumpStatement "php" expression) ∧ f.lineNumber = number := by
  have located : locate? (dumpRow number indent expression {}).line (dumpRow number indent expression {}).code
      (dumpMerged indent (Mode.code.live none expression)) =
        some (indent.length, (indent ++ dumpStatement "php" expression).length) := by
    rw [Row.spelledLocated (dumpSpelled number blank _), dumpAnchor number blank, dumpStop number blank ends]
  obtain ⟨-, f, found, -⟩ := findingLocated origin number (locateSource located)
  obtain ⟨start, stop, again, tells⟩ := findingSource found
  cases Option.some.inj (located.symm.trans again)
  have content : f.content = String.ofList (dumpStatement "php" expression) := by
    have slice : ((dumpRow number indent expression {}).line.take (indent ++ dumpStatement "php" expression).length).drop
        indent.length = dumpStatement "php" expression := by
      rw [dumpRow, List.take_length, List.drop_left]
    rw [tells.content, slice, dumpStripped]
  have severity := findingSeverity found
  rw [content, String.toList_ofList, dumpSeverity ends] at severity
  refine ⟨f, List.mem_filterMap.mpr ⟨_, ?_, found⟩, tells.kind, severity, content, tells.lineNumber⟩
  rw [dumpStatements number blank ends nests]
  exact List.mem_singleton_self _

theorem openUnseen (origin : Origin) (number : Nat) (blank : allBlank indent = true)
    (contained : Contained expression)
    (leaves : opened [] [] (Mode.code.live none expression) ≠ some []) :
    (dumpRow number indent expression {}).findings origin = [] := by
  obtain ⟨closers, opens⟩ := Option.isSome_iff_exists.mp (contained.within [] [])
  rw [opens] at leaves
  obtain ⟨closer, outer, rfl⟩ := List.exists_cons_of_ne_nil (fun none => leaves (congrArg some none))
  have inside : (opened [] [] (Mode.code.live none expression ++ ')' :: ";exit;".toList)).isSome := by
    rw [openedAppend, opens, Option.bind_some, opened, turned, if_neg (by decide), if_neg (by decide),
      if_neg (by simp), Option.bind_some]
    exact openedSome (by decide) _ _
  have none : segments (dumpRow number indent expression {}).code.text = [] := by
    rw [dumpCode number blank (contained.leads none), List.append_assoc]
    exact segmentsInside (frontPlain blank) inside
  rw [Row.findings, Row.statements, none]
  split <;> rfl

theorem commentStays {text : List Char} {next : Option Char} {inner : Mode}
    (inside : ¬ ['*', '/'] <:+: text ++ next.toList) :
    (Mode.comment inner).after next text = .comment inner ∧ (Mode.comment inner).live next text = [] := by
  induction text with
  | nil => exact ⟨rfl, rfl⟩
  | cons c text ih =>
    have later := ih fun shown => inside (shown.trans (List.suffix_cons c _).isInfix)
    have step : (Mode.comment inner).step c (text.head?.or next) = (.blockComment, .comment inner) := by
      simp only [Mode.step]
      split
      · rename_i mark
        simp only [Bool.and_eq_true, beq_iff_eq] at mark
        have front : (text ++ next.toList).head? = some '/' := by
          rw [← mark.2]
          cases text <;> cases next <;> rfl
        obtain ⟨more, parts⟩ := List.head?_eq_some_iff.mp front
        refine absurd ?_ inside
        rw [mark.1, List.cons_append, parts]
        exact List.IsPrefix.isInfix ⟨more, rfl⟩
      · rfl
    rw [Mode.after, Mode.live, step]
    exact ⟨later.1, by rw [if_neg (by simp)]; exact later.2⟩

theorem markBehind {front rest : List Char} (star : '*' ∉ front)
    (shown : ['*', '/'] <:+: front ++ rest) : ['*', '/'] <:+: rest := by
  induction front with
  | nil => exact shown
  | cons c front ih =>
    rw [List.cons_append, List.infix_cons_iff] at shown
    rcases shown with here | later
    · obtain ⟨same, -⟩ := List.cons_prefix_cons.mp here
      exact absurd (same ▸ List.mem_cons_self) star
    · exact ih (fun member => star (List.mem_cons_of_mem _ member)) later

theorem markBefore {text back : List Char} (slash : '/' ∉ back)
    (shown : ['*', '/'] <:+: text ++ back) : ['*', '/'] <:+: text := by
  induction text with
  | nil => exact absurd (shown.subset (by simp)) slash
  | cons c text ih =>
    rw [List.cons_append, List.infix_cons_iff] at shown
    rcases shown with here | later
    · cases text with
      | nil =>
        obtain ⟨-, next⟩ := List.cons_prefix_cons.mp here
        exact absurd (next.subset List.mem_cons_self) slash
      | cons d text =>
        rw [List.cons_append, List.cons_prefix_cons, List.cons_prefix_cons] at here
        obtain ⟨rfl, rfl, -⟩ := here
        exact List.IsPrefix.isInfix ⟨text, rfl⟩
    · exact (ih later).trans (List.suffix_cons c _).isInfix

theorem commentUnseen (origin : Origin) (number : Nat) (blank : allBlank indent = true)
    (inside : ¬ ['*', '/'] <:+: expression) :
    (dumpRow number indent expression { inBlockComment := true }).findings origin = [] := by
  have none : (dumpRow number indent expression { inBlockComment := true }).code.text = [] := by
    have text : (dumpRow number indent expression { inBlockComment := true }).code.text =
        (Mode.comment .code).live none (indent ++ dumpStatement "php" expression) := codeText _ _
    have star : '*' ∉ indent ++ "var_dump(".toList := by
      rw [List.mem_append]
      rintro (member | member)
      · exact absurd (List.all_eq_true.mp blank _ member) (by decide)
      · revert member
        decide
    have slash : '/' ∉ ");exit;".toList := by decide
    have parts : indent ++ dumpStatement "php" expression =
        (indent ++ "var_dump(".toList) ++ (expression ++ ");exit;".toList) := by
      rw [dumpSpelling, List.append_assoc, List.append_assoc]
    rw [text, parts]
    apply And.right
    apply commentStays
    intro shown
    rw [Option.toList_none, List.append_nil] at shown
    exact inside (markBefore slash (markBehind star shown))
  rw [Row.findings, Row.statements, none]
  rfl

end
end DebugSweep.Scan
