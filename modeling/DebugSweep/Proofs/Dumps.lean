import DebugSweep.Proofs.DumpLines
import DebugSweep.Proofs.Insertions
import DebugSweep.Server.Tools

/-! Dumps that are put into a text. Main statement: a dump on one line is reported as it was written, where it
was put in, if no comment is open there and its expression ends in code and closes the brackets that it opens;
for expressions without comment marks exactly then. -/
namespace DebugSweep.Scan
open Lexis Text

theorem rowPlaced (number : Nat) (state : LineState) (above below : List (List Char)) (raw : List Char) :
    (rowsFrom number state (above ++ raw :: below))[above.length]? =
      some ⟨number + above.length, dropEnd '\r' raw, stateBehind state above⟩ := by
  induction above generalizing number state with
  | nil => rfl
  | cons line above ih =>
    rw [List.cons_append, rowsFrom, List.length_cons, List.getElem?_cons_succ, ih, classifyReads,
      (returnsRead state line).1]
    congr 2
    omega

end DebugSweep.Scan

namespace DebugSweep.Edit
open Text Lexis Scan

theorem acceptedInsertable {before : Option Char} {expression accepted : List Char}
    (fits : accepted? before expression = some accepted) : isInsertable accepted = true := by
  unfold accepted? at fits
  rw [isInsertable, Bool.or_eq_true]
  split at fits
  · obtain ⟨named, same⟩ := Option.ite_none_right_eq_some.mp fits
    cases same
    exact .inl named
  · split at fits
    · rename_i called
      cases fits
      exact .inr called
    · obtain ⟨named, same⟩ := Option.ite_none_right_eq_some.mp fits
      cases same
      exact .inl (Bool.and_eq_true_iff.mp named).2

theorem emptyUnselected {d : Document} {s : Selection} {picked : List Char} (empty : d.text = [])
    (selected : d.textIn s = .ok picked) : strip picked = [] := by
  have lines := emptyLines empty
  unfold Document.textIn at selected
  split at selected
  · contradiction
  · rename_i inside
    rcases lines with none | one
    · simp [Document.count, none] at inside
    · have first : s.endLine = 0 := by
        rw [Document.count, one] at inside
        simpa using inside
      have blank : ∀ n : Nat, (d.lines[n]?).getD [] = [] := by
        intro n
        cases n <;> simp [one]
      dsimp only at selected
      rw [blank, blank, first] at selected
      split at selected
      · cases selected
        rw [List.take_nil, List.drop_nil]
        rfl
      · cases selected
        rw [List.take_nil, List.drop_nil, List.take_zero, List.drop_nil]
        rfl

theorem expressionPicked {d : Document} {s : Selection} {expression : List Char}
    (selected : expressionOf d s = .ok expression) : ∃ picked before, d.textIn s = .ok picked ∧ strip picked ≠ [] ∧
      accepted? before (dropSemicolon (strip picked)) = some expression := by
  unfold expressionOf at selected
  obtain ⟨picked, text, rest⟩ := bindOkIff.mp selected
  dsimp only at rest
  split at rest
  · cases rest
  · rename_i held
    obtain ⟨lastLine, -, rest⟩ := bindOkIff.mp rest
    split at rest
    · cases rest
    · split at rest
      · cases rest
      · obtain ⟨firstLine, -, rest⟩ := bindOkIff.mp rest
        split at rest
        · rename_i accepted fits
          cases rest
          exact ⟨picked, _, text, fun none => held (by rw [none]; rfl), fits⟩
        · split at rest <;> cases rest

theorem expressionSource {d : Document} {s : Selection} {expression : List Char}
    (selected : expressionOf d s = .ok expression) : d.text ≠ [] ∧ isInsertable expression = true := by
  obtain ⟨picked, before, text, held, fits⟩ := expressionPicked selected
  exact ⟨fun empty => held (emptyUnselected empty text), acceptedInsertable fits⟩

structure Dump where
  source : List Char
  selection : Selection
  options : IndentOptions
  expression : List Char
  plan : Plan
  edited : Document
  selected : expressionOf (.ofText source) selection = .ok expression
  planned : Edit.plan (.ofText source) selection options = .ok plan
  applied : apply (.ofText source) plan (dumpStatement "php" expression) = .ok edited

namespace Dump

def statement (d : Dump) : List Char := dumpStatement "php" d.expression

def line (d : Dump) : Nat := d.plan.line + if d.plan.leadingNewline then 2 else 1

def state (d : Dump) : LineState := stateBehind {} (d.plan.above (.ofText d.source))

def InCode (d : Dump) : Prop := d.state = {}

def EndsInCode (d : Dump) : Prop := Mode.code.after none d.expression = .code

def Nests (d : Dump) : Prop := opened [] [] (Mode.code.live none d.expression) = some []

/-- The expression holds no comment and nothing that would end one. -/
def Unremarked (d : Dump) : Prop := Commentless .code d.expression ∧ ¬ ['*', '/'] <:+: d.expression

instance (d : Dump) : Decidable d.InCode := inferInstanceAs (Decidable (_ = _))

instance (d : Dump) : Decidable d.EndsInCode := inferInstanceAs (Decidable (_ = _))

instance (d : Dump) : Decidable d.Nests := inferInstanceAs (Decidable (_ = _))

instance (d : Dump) : Decidable d.Unremarked := inferInstanceAs (Decidable (_ ∧ _))

def Found (d : Dump) (origin : Origin) : Prop :=
  ∃ f ∈ Scan.text origin d.edited.text, f.kind = .varDump ∧ f.severity = .error ∧
    f.content = String.ofList d.statement ∧ f.lineNumber = d.line

def row (d : Dump) : Row := dumpRow d.line d.plan.indent d.expression d.state

theorem fits (d : Dump) : d.plan.Fits (.ofText d.source) := planFits (textClosed d.source) d.planned

theorem contained (d : Dump) (plain : Commentless .code d.expression) : Contained d.expression :=
  insertableContained (expressionSource d.selected).2 plain

theorem rowReached (d : Dump) (flat : '\n' ∉ d.expression) : d.row ∈ rows d.edited.text := by
  have free : '\n' ∉ dumpStatement "php" d.expression := by
    rw [dumpSpelling]
    simp [flat]
  obtain ⟨bound, below, parts⟩ :=
    appliedLines (textClosed d.source) (expressionSource d.selected).1 d.fits free d.applied
  have size : 1 + (d.plan.above (.ofText d.source)).length = d.line := by
    rw [Plan.above, line, List.length_append, List.length_take, Nat.min_eq_left bound]
    split
    · rw [List.length_singleton]
      omega
    · rw [List.length_nil]
      omega
  have edge : dropEnd '\r' (d.plan.indent ++ dumpStatement "php" d.expression) =
      d.plan.indent ++ dumpStatement "php" d.expression := by
    rw [dumpParts]
    simp [dropEnd]
  have placed := rowPlaced 1 {} (d.plan.above (.ofText d.source)) below
    (d.plan.indent ++ dumpStatement "php" d.expression)
  rw [edge, size] at placed
  rw [rows, parts, rowsPlain]
  exact List.mem_of_getElem? placed

theorem foundIff (d : Dump) (flat : '\n' ∉ d.expression) (origin : Origin) : d.Found origin ↔
    ∃ f ∈ d.row.findings origin, f.kind = .varDump ∧ f.severity = .error ∧
      f.content = String.ofList d.statement ∧ f.lineNumber = d.line := by
  have reached := d.rowReached flat
  rw [Found, textRows]
  constructor
  · rintro ⟨f, member, kind, severity, content, number⟩
    obtain ⟨row, inside, found⟩ := List.mem_flatMap.mp member
    have same : row = d.row := by
      apply rowUnique inside reached
      have told := (Row.findingShowsToken found).1
      have here : d.row.number = d.line := rfl
      omega
    exact ⟨f, same ▸ found, kind, severity, content, number⟩
  · rintro ⟨f, found, told⟩
    exact ⟨f, List.mem_flatMap.mpr ⟨d.row, reached, found⟩, told⟩

theorem found (d : Dump) (flat : '\n' ∉ d.expression) (origin : Origin) (code : d.InCode)
    (ends : d.EndsInCode) (nests : d.Nests) : d.Found origin := by
  rw [foundIff d flat, row, show d.state = {} from code]
  exact dumpFound origin d.line d.fits.indents.blank ends nests

theorem foundSource (d : Dump) (flat : '\n' ∉ d.expression) (origin : Origin) (unremarked : d.Unremarked)
    (found : d.Found origin) : d.InCode ∧ d.Nests := by
  obtain ⟨f, member, -⟩ := (foundIff d flat origin).mp found
  have blank := d.fits.indents.blank
  have code : d.InCode := by
    rcases stateBehindCases (.inl rfl) (d.plan.above (.ofText d.source)) with clear | inside
    · exact clear
    · have inside : d.state = { inBlockComment := true } := inside
      rw [row, inside, commentUnseen origin d.line blank unremarked.2] at member
      exact absurd member List.not_mem_nil
  refine ⟨code, ?_⟩
  by_contra leaves
  rw [row, show d.state = {} from code,
    openUnseen origin d.line blank (d.contained unremarked.1) leaves] at member
  exact absurd member List.not_mem_nil

def answer (d : Dump) : Value :=
  .record [("expression", .text (String.ofList d.expression)),
    ("statement", .text (String.ofList d.statement)), ("plan", d.plan.toValue),
    ("inserted_text", .text (String.ofList (render d.plan d.statement))),
    ("text", .text (String.ofList d.edited.text))]

structure Asked (d : Dump) (s : Site) (args : Site.Arguments) : Prop where
  source : Value.fieldIn? "text" args = some (.text (String.ofList d.source))
  selection : Selection.ofValue (Site.argumentOr args "selection" .null) = .ok d.selection
  options : s.indentOf args = .ok d.options

theorem Asked.unique {d e : Dump} {s : Site} {args : Site.Arguments} (first : d.Asked s args)
    (second : e.Asked s args) : d = e := by
  obtain ⟨source, selection, options, expression, plan, edited, selected, planned, applied⟩ := d
  obtain ⟨source', selection', options', expression', plan', edited', selected', planned', applied'⟩ := e
  obtain rfl : source = source' := by
    have same := Option.some.inj (first.source.symm.trans second.source)
    simpa using congrArg String.toList (Value.text.inj same)
  obtain rfl : selection = selection' := Except.ok.inj (first.selection.symm.trans second.selection)
  obtain rfl : options = options' := Except.ok.inj (first.options.symm.trans second.options)
  obtain rfl : expression = expression' := Except.ok.inj (selected.symm.trans selected')
  obtain rfl : plan = plan' := Except.ok.inj (planned.symm.trans planned')
  obtain rfl : edited = edited' := Except.ok.inj (applied.symm.trans applied')
  rfl

end Dump
end DebugSweep.Edit

namespace DebugSweep.Site
open Edit

structure Insertion (s : Site) (args : Arguments) (answer : Value) where
  source : List Char
  selection : Selection
  language : String
  options : IndentOptions
  expression : List Char
  plan : Plan
  edited : Document
  given : Value.fieldIn? "text" args = some (.text (String.ofList source))
  picked : Selection.ofValue (argumentOr args "selection" .null) = .ok selection
  spoken : s.languageOf args = .ok language
  asked : s.indentOf args = .ok options
  selected : expressionOf (.ofText source) selection = .ok expression
  planned : Edit.plan (.ofText source) selection options = .ok plan
  applied : apply (.ofText source) plan (dumpStatement language expression) = .ok edited
  answered : answer = .record [("expression", .text (String.ofList expression)),
    ("statement", .text (String.ofList (dumpStatement language expression))), ("plan", plan.toValue),
    ("inserted_text", .text (String.ofList (render plan (dumpStatement language expression)))),
    ("text", .text (String.ofList edited.text))]

theorem insertionSource {s : Site} {args : Arguments} {answer : Value} (inserted : s.insertDump args = .ok answer) :
    Nonempty (s.Insertion args answer) := by
  unfold insertDump at inserted
  split at inserted
  · rename_i source given
    obtain ⟨selection, picked, rest⟩ := bindOkIff.mp inserted
    obtain ⟨language, spoken, rest⟩ := bindOkIff.mp rest
    obtain ⟨options, asked, rest⟩ := bindOkIff.mp rest
    obtain ⟨expression, selected, rest⟩ := bindOkIff.mp rest
    obtain ⟨plan, planned, rest⟩ := bindOkIff.mp rest
    obtain ⟨edited, applied, rest⟩ := bindOkIff.mp rest
    exact ⟨source.toList, selection, language, options, expression, plan, edited, by rw [given, String.ofList_toList],
      mapErrorOk picked, spoken, asked, mapErrorOk selected, planned, applied, (Except.ok.inj rest).symm⟩
  · contradiction

theorem insertSource {s : Site} {args : Arguments} {answer : Value} (php : s.languageOf args = .ok "php")
    (inserted : s.insertDump args = .ok answer) : ∃ d : Dump, d.Asked s args ∧ d.answer = answer := by
  obtain ⟨i⟩ := insertionSource inserted
  obtain ⟨source, selection, language, options, expression, plan, edited, given, picked, spoken, asked, selected,
    planned, applied, rfl⟩ := i
  cases Except.ok.inj (php.symm.trans spoken)
  exact ⟨⟨source, selection, options, expression, plan, edited, selected, planned, applied⟩,
    ⟨given, picked, asked⟩, rfl⟩

theorem askedInserted {s : Site} {args : Arguments} {d : Dump} (php : s.languageOf args = .ok "php")
    (asked : d.Asked s args) : s.insertDump args = .ok d.answer := by
  unfold insertDump
  rw [asked.source]
  dsimp only
  rw [asked.selection, php, asked.options, String.toList_ofList]
  simp only [Except.mapError, bind, Except.bind, d.selected, d.planned, d.applied]
  rfl

theorem insertedDumpFound (s : Site) (args : Arguments) (origin : Scan.Origin) {answer : Value}
    (php : s.languageOf args = .ok "php") (inserted : s.insertDump args = .ok answer) :
    ∃ d : Dump, d.Asked s args ∧ d.answer = answer ∧ ('\n' ∉ d.expression →
      (d.InCode → d.EndsInCode → d.Nests → d.Found origin) ∧
      (d.Unremarked → (d.Found origin ↔ d.InCode ∧ d.Nests))) := by
  obtain ⟨d, asked, same⟩ := insertSource php inserted
  refine ⟨d, asked, same, fun flat => ⟨d.found flat origin, fun unremarked => ⟨?_, ?_⟩⟩⟩
  · exact d.foundSource flat origin unremarked
  · rintro ⟨code, nests⟩
    exact d.found flat origin code ((d.contained unremarked.1).leads none) nests

def dumpRequest (text : String) (start stop : Nat) : Arguments :=
  [("text", .text text), ("language", .text "php"),
    ("selection", .record [("start", .record [("line", .int 0), ("character", .ofNat start)]),
      ("end", .record [("line", .int 0), ("character", .ofNat stop)])])]

def bareSite : Site where
  server := {
    settings := Settings.default ⟨["w"]⟩
    excludes := ⟨⟨["data", "excludes.json"]⟩, []⟩
    engine := { settings := Settings.default ⟨["w"]⟩ }
    bookmarks := ⟨⟨["data", "bookmarks.json"]⟩, []⟩
    journal := ⟨["data", "audit.jsonl"]⟩ }
  source := { disk := { nodes := [(⟨["w"]⟩, .dir)], here := ⟨["w"]⟩ } }

def emptyBlock : Dump where
  source := "if (f($a['k'])) \x7b \x7d\n".toList
  selection := ⟨0, 4, 0, 14⟩
  options := {}
  expression := "f($a['k'])".toList
  plan := { line := 0, column := 18, indent := "    ".toList, leadingNewline := true, rule := .emptyBlock }
  edited := .ofText "if (f($a['k'])) \x7b \n    var_dump(f($a['k']));exit;\n\x7d\n".toList
  selected := by decide +kernel
  planned := by decide +kernel
  applied := by decide +kernel

theorem emptyBlockFound :
    bareSite.insertDump (dumpRequest "if (f($a['k'])) \x7b \x7d\n" 4 14) = .ok emptyBlock.answer ∧
      emptyBlock.Found ⟨"/w/a.php", "a.php"⟩ := by
  have php : bareSite.languageOf (dumpRequest "if (f($a['k'])) \x7b \x7d\n" 4 14) = .ok "php" := by decide +kernel
  have asked : emptyBlock.Asked bareSite (dumpRequest "if (f($a['k'])) \x7b \x7d\n" 4 14) :=
    ⟨rfl, by decide +kernel, by decide +kernel⟩
  have inserted := askedInserted php asked
  obtain ⟨d, same, -, told⟩ := insertedDumpFound bareSite _ ⟨"/w/a.php", "a.php"⟩ php inserted
  obtain rfl := asked.unique same
  exact ⟨inserted, (told (by decide)).1 (by decide +kernel) (by decide +kernel) (by decide +kernel)⟩

def behindRemark : Dump where
  source := "foo($x); /* a\nb */\n".toList
  selection := ⟨0, 4, 0, 6⟩
  options := {}
  expression := "$x".toList
  plan := { line := 1, indent := [] }
  edited := .ofText "foo($x); /* a\nvar_dump($x);exit;\nb */\n".toList
  selected := by decide +kernel
  planned := by decide +kernel
  applied := by decide +kernel

theorem behindRemarkMissed :
    bareSite.insertDump (dumpRequest "foo($x); /* a\nb */\n" 4 6) = .ok behindRemark.answer ∧
      '\n' ∉ behindRemark.expression ∧ behindRemark.Unremarked ∧ behindRemark.Nests ∧
      ¬ behindRemark.Found ⟨"/w/a.php", "a.php"⟩ := by
  have asked : behindRemark.Asked bareSite (dumpRequest "foo($x); /* a\nb */\n" 4 6) :=
    ⟨rfl, by decide +kernel, by decide +kernel⟩
  have none : Scan.text ⟨"/w/a.php", "a.php"⟩ behindRemark.edited.text = [] := by decide +kernel
  refine ⟨askedInserted (by decide +kernel) asked, by decide, by decide +kernel, by decide +kernel, ?_⟩
  rintro ⟨f, member, -⟩
  rw [none] at member
  exact absurd member List.not_mem_nil

end DebugSweep.Site
