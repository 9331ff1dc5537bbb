import DebugSweep.Proofs.Reading
import DebugSweep.Text.Lines
import Mathlib.Data.List.DropRight
import Mathlib.Data.Nat.Find

/-! The lexical grammar of a whole text. A text is split into strings, comments and the code between
them, each as long as it can be. Main statement: every text has such a split, and reading its lines
one by one gives every character the class that it has there. -/
namespace DebugSweep.Lexis
open Text

inductive Lexeme where
  | code (text : List Char)
  | literal (quote : Char) (body : List Char) (closed : Bool)
  | lineComment (text : List Char)
  | blockComment (body : List Char) (closed : Bool)
  deriving DecidableEq, Repr

def startsLexeme : List Char → Bool
  | [] => false
  | c :: rest => isQuote c || c == '#' || (c == '/' && (rest.head? == some '/' || rest.head? == some '*'))

def escapes (before : List Char) : Nat := (before.rtakeWhile (· == '\\')).length

def LineEnds (rest : List Char) : Prop := rest = [] ∨ rest.head? = some '\n'

namespace Lexeme

def text : Lexeme → List Char
  | .code text => text
  | .literal quote body closed => quote :: body ++ (if closed then [quote] else [])
  | .lineComment text => text
  | .blockComment body closed => '/' :: '*' :: body ++ (if closed then ['*', '/'] else [])

def classes : Lexeme → List CharClass
  | .code text => text.map (fun _ => .code)
  | .literal _ body closed =>
      .quote :: body.map (fun _ => .string) ++ (if closed then [.quote] else [])
  | .lineComment text => text.map (fun _ => .lineComment)
  | .blockComment body closed => (blockComment body closed).text.map (fun _ => .blockComment)

def Stands : Lexeme → List Char → Prop
  | .code text, rest => text ≠ [] ∧ (rest = [] ∨ startsLexeme rest = true) ∧
      ∀ front back, text = front ++ back → back ≠ [] → startsLexeme (back ++ rest) = false
  | .literal quote body closed, rest => isQuote quote = true ∧ '\n' ∉ body ∧
      (∀ front back, body = front ++ quote :: back → escapes front % 2 = 1) ∧
      (if closed then escapes body % 2 = 0 else LineEnds rest)
  | .lineComment text, rest => (['#'] <+: text ∨ ['/', '/'] <+: text) ∧ '\n' ∉ text ∧ LineEnds rest
  | .blockComment body closed, rest =>
      if closed then ¬ ['*', '/'] <:+: body ++ ['*'] else ¬ ['*', '/'] <:+: body ∧ rest = []

end Lexeme

inductive Lexed : List Char → List Lexeme → Prop
  | done : Lexed [] []
  | next {lexeme : Lexeme} {rest : List Char} {lexemes : List Lexeme}
      (stands : lexeme.Stands rest) (tail : Lexed rest lexemes) :
      Lexed (lexeme.text ++ rest) (lexeme :: lexemes)

def threaded (state : LineState) : List (List Char) → List Classified
  | [] => []
  | line :: rest => classify line state :: threaded (classify line state).exit rest

def Mode.flow (mode : Mode) : List Char → List CharClass
  | [] => []
  | c :: tail =>
      if c = '\n' then
        (if mode.exit.inBlockComment then .blockComment else .code) :: mode.exit.mode.flow tail
      else (mode.step c tail.head?).1 :: (mode.step c tail.head?).2.flow tail

theorem flowLine (mode : Mode) {line : List Char} (closed : '\n' ∉ line) (rest : List Char) :
    mode.flow (line ++ rest) =
      mode.classes rest.head? line ++ (mode.after rest.head? line).flow rest := by
  induction line generalizing mode with
  | nil => rfl
  | cons c tail ih =>
    have here : c ≠ '\n' := fun same => closed (same ▸ List.mem_cons_self)
    have others : '\n' ∉ tail := fun member => closed (List.mem_cons_of_mem _ member)
    simp only [List.cons_append, Mode.flow, Mode.classes, Mode.after, here, if_false,
      List.head?_append, ih _ others]

theorem flowFeed (state : LineState) {line : List Char} (closed : '\n' ∉ line) (rest : List Char) :
    ∃ feed, state.mode.flow (line ++ '\n' :: rest) =
      (classify line state).classes ++ feed :: (classify line state).exit.mode.flow rest := by
  have plain : (some '\n' : Option Char) ≠ some '/' ∧ (some '\n' : Option Char) ≠ some '*' := by decide
  refine ⟨if (state.mode.after none line).exit.inBlockComment then .blockComment else .code, ?_⟩
  rw [flowLine _ closed, List.head?_cons, classesPlain _ _ plain.1 plain.2,
    afterPlain _ _ plain.1 plain.2, classifyReads, Mode.flow, if_pos rfl]

theorem markedLine {line : List Char} (closed : '\n' ∉ line) (classes : List CharClass) :
    (line.zip classes).filter (fun mark => mark.1 != '\n') = line.zip classes := by
  apply List.filter_eq_self.mpr
  intro mark member
  have inside := (List.of_mem_zip (a := mark.1) (b := mark.2) member).1
  have other : mark.1 ≠ '\n' := fun same => closed (same ▸ inside)
  simpa using other

theorem threadedFlow (state : LineState) {lines : List (List Char)}
    (closed : ∀ line ∈ lines, '\n' ∉ line) :
    ((unlines lines).zip (state.mode.flow (unlines lines))).filter (fun mark => mark.1 != '\n') =
      (lines.zip (threaded state lines)).flatMap (fun (line, read) => line.zip read.classes) := by
  induction lines generalizing state with
  | nil => rfl
  | cons line rest ih =>
    have here := closed line List.mem_cons_self
    have others : ∀ other ∈ rest, '\n' ∉ other := fun other member =>
      closed other (List.mem_cons_of_mem _ member)
    simp only [threaded, List.zip_cons_cons, List.flatMap_cons]
    cases rest with
    | nil =>
      have whole := flowLine state.mode here []
      simp only [List.append_nil, List.head?_nil, Mode.flow] at whole
      simp [unlines, whole, classifyReads, threaded, markedLine here]
    | cons second more =>
      obtain ⟨feed, read⟩ := flowFeed state here (unlines (second :: more))
      have joined : unlines (line :: second :: more) = line ++ '\n' :: unlines (second :: more) := by
        simp [unlines]
      have sized : line.length = (classify line state).classes.length := by
        rw [classifyReads, classesLength]
      rw [joined, read, List.zip_append sized, List.filter_append, markedLine here,
        ← ih (classify line state).exit others]
      simp

theorem threadedSizes (state : LineState) (lines : List (List Char)) :
    (threaded state lines).map (fun read => read.classes.length) = lines.map List.length := by
  induction lines generalizing state with
  | nil => rfl
  | cons line rest ih => simp [threaded, ih, classifyReads, classesLength]

theorem threadedOutside (state : LineState) (lines : List (List Char)) :
    ∀ read ∈ threaded state lines, read.exit.inString = false ∧ read.exit.delimiter = none := by
  induction lines generalizing state with
  | nil => simp [threaded]
  | cons line rest ih =>
    intro read member
    rcases List.mem_cons.mp member with rfl | later
    · rw [classifyReads]
      rcases exitCases (state.mode.after none line) with clear | block
      · simp [clear]
      · simp [block]
    · exact ih _ read later

section
variable {rest : List Char}

theorem flowEnds {mode : Mode} (ends : LineEnds rest) (leaves : mode.exit = {}) :
    mode.flow rest = Mode.code.flow rest := by
  cases rest with
  | nil => rfl
  | cons c tail =>
    have feed : c = '\n' := by simpa [LineEnds] using ends
    simp only [Mode.flow, feed, if_true, leaves]
    rfl

theorem flowCode {text : List Char}
    (plain : ∀ front back, text = front ++ back → back ≠ [] → startsLexeme (back ++ rest) = false) :
    Mode.code.flow (text ++ rest) = text.map (fun _ => .code) ++ Mode.code.flow rest := by
  induction text with
  | nil => rfl
  | cons c tail ih =>
    have here := plain [] (c :: tail) rfl (by simp)
    have later := ih (fun front back parts => plain (c :: front) back (by rw [parts]; rfl))
    simp only [List.cons_append, Mode.flow, List.map_cons]
    split
    · exact congrArg (CharClass.code :: ·) later
    · simp only [List.cons_append, startsLexeme, Bool.or_eq_false_iff, Bool.and_eq_false_iff] at here
      obtain ⟨⟨quote, hash⟩, slash⟩ := here
      have step : Mode.step .code c (tail ++ rest).head? = (.code, .code) := by
        simp only [Mode.step, quote, hash, Bool.false_eq_true, if_false, Bool.false_or]
        rcases slash with other | ⟨one, two⟩
        · simp [other]
        · simp only [one, two, Bool.and_false, Bool.false_eq_true, if_false]
      rw [step]
      exact congrArg (CharClass.code :: ·) later

theorem flowBlock {body : List Char} (inside : ¬ ['*', '/'] <:+: body ++ rest.take 1) :
    (Mode.comment .code).flow (body ++ rest) =
      body.map (fun _ => .blockComment) ++ (Mode.comment .code).flow rest := by
  induction body with
  | nil => rfl
  | cons c tail ih =>
    have later := ih (fun shown => inside (shown.trans (List.suffix_cons c _).isInfix))
    simp only [List.cons_append, Mode.flow, List.map_cons]
    split
    · exact congrArg (CharClass.blockComment :: ·) later
    · have step : (Mode.comment .code).step c (tail ++ rest).head? = (.blockComment, .comment .code) := by
        simp only [Mode.step]
        split
        · rename_i mark
          simp only [Bool.and_eq_true, beq_iff_eq] at mark
          exfalso
          apply inside
          -- The mark would stand at the front of what the comment still has.
          have front : (tail ++ rest.take 1).head? = some '/' := by
            rw [← mark.2]
            cases tail <;> cases rest <;> rfl
          obtain ⟨more, parts⟩ := List.head?_eq_some_iff.mp front
          rw [mark.1, List.cons_append, parts]
          exact List.IsPrefix.isInfix ⟨more, rfl⟩
        · rfl
      rw [step]
      exact congrArg (CharClass.blockComment :: ·) later

theorem escapesNext (front : List Char) (c : Char) :
    escapes (front ++ [c]) = if c = '\\' then escapes front + 1 else 0 := by
  unfold escapes
  split
  · rename_i same
    rw [List.rtakeWhile_concat_pos _ _ _ (by simp [same])]
    simp
  · rename_i other
    rw [List.rtakeWhile_concat_neg _ _ _ (by simp [other])]
    rfl

-- The flag of the machine is the parity of the run of backslashes behind it.
theorem literalReads {quote : Char} {body : List Char} (next : Option Char)
    (opened : ∀ front back, body = front ++ quote :: back → escapes front % 2 = 1) :
    (Mode.literal (some quote) false).classes next body = body.map (fun _ => .string) ∧
      (Mode.literal (some quote) false).after next body =
        .literal (some quote) (escapes body % 2 == 1) := by
  induction body using List.reverseRecOn generalizing next with
  | nil => exact ⟨rfl, rfl⟩
  | append_singleton front c ih =>
    obtain ⟨classes, after⟩ := ih (some c) (fun first back parts =>
      opened first (back ++ [c]) (by simp [parts]))
    have step : (Mode.literal (some quote) (escapes front % 2 == 1)).step c next =
        (.string, .literal (some quote) (escapes (front ++ [c]) % 2 == 1)) := by
      rw [escapesNext]
      simp only [Mode.step]
      split
      · rename_i odd
        rw [beq_iff_eq] at odd
        split
        · simp
          omega
        · simp
      · rename_i even
        split
        · rename_i slash
          simp only [beq_iff_eq] at even slash
          simp [slash]
          omega
        · split
          · rename_i closing
            obtain rfl : quote = c := by simpa using closing
            have odd := opened front [] rfl
            simp [odd] at even
          · rename_i slash _
            have other : c ≠ '\\' := by simpa using slash
            simp [other]
    constructor
    · simp only [classesAppend, List.head?_cons, Option.some_or, classes, after, Mode.classes,
        List.head?_nil, Option.none_or, step, List.map_append, List.map_cons, List.map_nil]
    · simp only [afterAppend, List.head?_cons, Option.some_or, after, Mode.after, List.head?_nil,
        Option.none_or, step]

theorem restReads (text : List Char) (next : Option Char) :
    Mode.rest.classes next text = text.map (fun _ => .lineComment) ∧ Mode.rest.after next text = .rest := by
  induction text with
  | nil => exact ⟨rfl, rfl⟩
  | cons c tail ih => exact ⟨congrArg (CharClass.lineComment :: ·) ih.1, ih.2⟩

theorem flowLiteral {quote : Char} {body : List Char} {closed : Bool}
    (stands : (Lexeme.literal quote body closed).Stands rest) :
    Mode.code.flow ((Lexeme.literal quote body closed).text ++ rest) =
      (Lexeme.literal quote body closed).classes ++ Mode.code.flow rest := by
  obtain ⟨isQuoted, oneLine, opened, ends⟩ := stands
  have feed : quote ≠ '\n' := by rintro rfl; simp [isQuote] at isQuoted
  have slash : quote ≠ '\\' := by rintro rfl; simp [isQuote] at isQuoted
  have inner (more : List Char) : Mode.code.flow (quote :: (body ++ more)) = .quote ::
      (body.map (fun _ => .string) ++
        (Mode.literal (some quote) (escapes body % 2 == 1)).flow more) := by
    obtain ⟨classes, after⟩ := literalReads more.head? opened
    rw [Mode.flow, if_neg feed]
    simp only [Mode.step, isQuoted, if_true]
    rw [flowLine _ oneLine, classes, after]
  cases closed with
  | true =>
    have even : escapes body % 2 = 0 := ends
    have shown : (Lexeme.literal quote body true).text ++ rest = quote :: (body ++ quote :: rest) := by
      simp [Lexeme.text]
    rw [shown, inner, Mode.flow, if_neg feed]
    simp [Mode.step, even, slash, Lexeme.classes]
  | false =>
    have shown : (Lexeme.literal quote body false).text ++ rest = quote :: (body ++ rest) := by
      simp [Lexeme.text]
    rw [shown, inner, flowEnds ends rfl]
    simp [Lexeme.classes]

theorem flowLineComment {text : List Char} (stands : (Lexeme.lineComment text).Stands rest) :
    Mode.code.flow (text ++ rest) = text.map (fun _ => .lineComment) ++ Mode.code.flow rest := by
  obtain ⟨mark, oneLine, ends⟩ := stands
  obtain ⟨c, tail, rfl, enters⟩ : ∃ c tail, text = c :: tail ∧
      Mode.step .code c (tail ++ rest).head? = (.lineComment, .rest) := by
    rcases mark with ⟨tail, rfl⟩ | ⟨tail, rfl⟩
    · exact ⟨'#', tail, rfl, by simp [Mode.step, isQuote]⟩
    · exact ⟨'/', '/' :: tail, rfl, by simp [Mode.step, isQuote]⟩
  have feed : c ≠ '\n' := fun same => oneLine (same ▸ List.mem_cons_self)
  have others : '\n' ∉ tail := fun member => oneLine (List.mem_cons_of_mem _ member)
  obtain ⟨classes, after⟩ := restReads tail rest.head?
  rw [List.cons_append, Mode.flow, if_neg feed, enters, flowLine _ others, classes, after,
    flowEnds ends rfl]
  simp

theorem flowBlockComment {body : List Char} {closed : Bool}
    (stands : (Lexeme.blockComment body closed).Stands rest) :
    Mode.code.flow ((Lexeme.blockComment body closed).text ++ rest) =
      (Lexeme.blockComment body closed).classes ++ Mode.code.flow rest := by
  have opens (more : List Char) : Mode.code.flow ('/' :: '*' :: more) =
      .blockComment :: .blockComment :: (Mode.comment .code).flow more := by
    simp [Mode.flow, Mode.step, isQuote]
  cases closed with
  | true =>
    have inside : ¬ ['*', '/'] <:+: body ++ ['*'] := by simpa [Lexeme.Stands] using stands
    have closes : (Mode.comment .code).flow ('*' :: '/' :: rest) =
        .blockComment :: .blockComment :: Mode.code.flow rest := by
      simp [Mode.flow, Mode.step]
    have shown : (Lexeme.blockComment body true).text ++ rest =
        '/' :: '*' :: (body ++ '*' :: '/' :: rest) := by simp [Lexeme.text]
    rw [shown, opens, flowBlock (by simpa using inside), closes]
    simp [Lexeme.classes, Lexeme.text]
  | false =>
    obtain ⟨inside, rfl⟩ : (¬ ['*', '/'] <:+: body) ∧ rest = [] := by
      simpa [Lexeme.Stands] using stands
    have whole := @flowBlock [] body (by simpa using inside)
    rw [List.append_nil] at whole
    have shown : (Lexeme.blockComment body false).text ++ [] = '/' :: '*' :: body := by
      simp [Lexeme.text]
    rw [shown, opens, whole]
    simp [Lexeme.classes, Lexeme.text, Mode.flow]

theorem flowLexeme {lexeme : Lexeme} (stands : lexeme.Stands rest) :
    Mode.code.flow (lexeme.text ++ rest) = lexeme.classes ++ Mode.code.flow rest := by
  cases lexeme with
  | code text => exact flowCode stands.2.2
  | literal quote body closed => exact flowLiteral stands
  | lineComment text => exact flowLineComment stands
  | blockComment body closed => exact flowBlockComment stands

end

theorem lexedFlow {text : List Char} {lexemes : List Lexeme} (lexed : Lexed text lexemes) :
    lexemes.flatMap Lexeme.classes = Mode.code.flow text := by
  induction lexed with
  | done => rfl
  | next stands tail ih => rw [List.flatMap_cons, ih, flowLexeme stands]

theorem lineSplit (text : List Char) :
    ∃ line rest, text = line ++ rest ∧ '\n' ∉ line ∧ LineEnds rest := by
  refine ⟨text.takeWhile (· != '\n'), text.dropWhile (· != '\n'),
    List.takeWhile_append_dropWhile.symm, ?_, ?_⟩
  · intro member
    simpa using List.mem_takeWhile_imp member
  · cases behind : text.dropWhile (· != '\n') with
    | nil => exact Or.inl rfl
    | cons c rest =>
      have stop := List.head?_dropWhile_not (p := (· != '\n')) (l := text)
      simp only [behind, List.head?_cons] at stop
      exact Or.inr (by simpa using stop)

theorem firstSplit (mark : List Char) (holds : List Char → Prop) (text : List Char) :
    (∃ front rest, text = front ++ mark ++ rest ∧ holds front ∧
      ∀ early more, text = early ++ mark ++ more → holds early → front.length ≤ early.length) ∨
    ∀ front rest, text = front ++ mark ++ rest → ¬ holds front := by
  by_cases some : ∃ size front rest, front.length = size ∧ text = front ++ mark ++ rest ∧ holds front
  · classical
    obtain ⟨front, rest, size, parts, here⟩ := Nat.find_spec some
    refine Or.inl ⟨front, rest, parts, here, ?_⟩
    intro early more parts' here'
    rw [size]
    exact Nat.find_min' some ⟨early, more, rfl, parts', here'⟩
  · right
    intro front rest parts here
    exact some ⟨_, front, rest, rfl, parts, here⟩

theorem literalStands {quote : Char} (isQuoted : isQuote quote = true) (text : List Char) :
    ∃ body closed rest, quote :: text = (Lexeme.literal quote body closed).text ++ rest ∧
      (Lexeme.literal quote body closed).Stands rest := by
  obtain ⟨line, rest, rfl, oneLine, ends⟩ := lineSplit text
  rcases firstSplit [quote] (fun front => escapes front % 2 = 0) line with
    ⟨body, after, rfl, even, first⟩ | never
  · refine ⟨body, true, after ++ rest, by simp [Lexeme.text], isQuoted, ?_, ?_, even⟩
    · intro member
      exact oneLine (by simp [member])
    · rintro front back rfl
      by_contra other
      have short := first front (back ++ [quote] ++ after) (by simp) (by omega)
      simp only [List.length_append, List.length_cons] at short
      omega
  · refine ⟨line, false, rest, by simp [Lexeme.text], isQuoted, oneLine, ?_, ends⟩
    rintro front back rfl
    have odd := never front back (by simp)
    omega

theorem blockStands (text : List Char) :
    ∃ body closed rest, '/' :: '*' :: text = (Lexeme.blockComment body closed).text ++ rest ∧
      (Lexeme.blockComment body closed).Stands rest := by
  rcases firstSplit ['*', '/'] (fun _ => True) text with ⟨body, rest, rfl, _, first⟩ | never
  · refine ⟨body, true, rest, by simp [Lexeme.text], ?_⟩
    simp only [Lexeme.Stands, if_true]
    rintro ⟨front, back, shown⟩
    have sizes := congrArg List.length shown
    simp only [List.length_append, List.length_cons, List.length_nil] at sizes
    -- An earlier mark would be one of the text.
    have short := first front (back ++ '/' :: rest) (by
      rw [← List.append_assoc, shown]
      simp) trivial
    omega
  · refine ⟨text, false, [], by simp [Lexeme.text], ?_⟩
    simp only [Lexeme.Stands, Bool.false_eq_true, if_false, and_true]
    rintro ⟨front, back, shown⟩
    exact never front back shown.symm trivial

theorem commentStands {mark : List Char} (known : mark = ['#'] ∨ mark = ['/', '/'])
    (tail : List Char) :
    ∃ text rest, mark ++ tail = text ++ rest ∧ (Lexeme.lineComment text).Stands rest ∧ text ≠ [] := by
  obtain ⟨line, rest, rfl, oneLine, ends⟩ := lineSplit tail
  refine ⟨mark ++ line, rest, (List.append_assoc ..).symm, ⟨?_, ?_, ends⟩, ?_⟩
  · rcases known with rfl | rfl
    · exact Or.inl ⟨line, rfl⟩
    · exact Or.inr ⟨line, rfl⟩
  · rcases known with rfl | rfl <;> simpa using oneLine
  · rcases known with rfl | rfl <;> simp

theorem lexemeStarts {text : List Char} (starts : startsLexeme text = true) :
    ∃ (lexeme : Lexeme) (rest : List Char), text = lexeme.text ++ rest ∧ lexeme.Stands rest ∧
      lexeme.text ≠ [] := by
  cases text with
  | nil => contradiction
  | cons c tail =>
    simp only [startsLexeme, Bool.or_eq_true, Bool.and_eq_true, beq_iff_eq] at starts
    rcases starts with (quoted | rfl) | ⟨rfl, slash | star⟩
    · obtain ⟨body, closed, rest, parts, stands⟩ := literalStands quoted tail
      exact ⟨_, rest, parts, stands, by simp [Lexeme.text]⟩
    · obtain ⟨text, rest, parts, stands, some⟩ := commentStands (Or.inl rfl) tail
      exact ⟨.lineComment text, rest, parts, stands, some⟩
    · obtain ⟨more, rfl⟩ := List.head?_eq_some_iff.mp slash
      obtain ⟨text, rest, parts, stands, some⟩ := commentStands (Or.inr rfl) more
      exact ⟨.lineComment text, rest, parts, stands, some⟩
    · obtain ⟨more, rfl⟩ := List.head?_eq_some_iff.mp star
      obtain ⟨body, closed, rest, parts, stands⟩ := blockStands more
      exact ⟨_, rest, parts, stands, by simp [Lexeme.text]⟩

theorem standsStarts {lexeme : Lexeme} {rest : List Char} (stands : lexeme.Stands rest)
    (other : ∀ text, lexeme ≠ .code text) : startsLexeme (lexeme.text ++ rest) = true := by
  cases lexeme with
  | code text => exact absurd rfl (other text)
  | literal quote body closed => simp [Lexeme.text, startsLexeme, stands.1]
  | lineComment text =>
    rcases stands.1 with ⟨tail, rfl⟩ | ⟨tail, rfl⟩ <;> simp [Lexeme.text, startsLexeme]
  | blockComment body closed => simp [Lexeme.text, startsLexeme]

theorem codeLexed {c : Char} {tail : List Char} {lexemes : List Lexeme} (lexed : Lexed tail lexemes)
    (plain : startsLexeme (c :: tail) = false) : ∃ lexemes, Lexed (c :: tail) lexemes := by
  have alone (ends : tail = [] ∨ startsLexeme tail = true) : ∃ lexemes, Lexed (c :: tail) lexemes := by
    refine ⟨.code [c] :: lexemes, @Lexed.next (.code [c]) _ _ ⟨by simp, ends, ?_⟩ lexed⟩
    intro front back parts some
    obtain ⟨rfl, rfl⟩ : front = [] ∧ back = [c] := by
      cases front with
      | nil => exact ⟨rfl, parts.symm⟩
      | cons d more =>
        have sizes := congrArg List.length parts
        have := List.length_pos_of_ne_nil some
        simp only [List.length_cons, List.length_nil, List.length_append] at sizes
        omega
    exact plain
  cases lexed with
  | done => exact alone (Or.inl rfl)
  | @next lexeme rest more stands behind =>
    by_cases code : ∃ text, lexeme = .code text
    · obtain ⟨text, rfl⟩ := code
      obtain ⟨_, ends, inside⟩ := stands
      refine ⟨.code (c :: text) :: more, @Lexed.next (.code (c :: text)) _ _ ⟨by simp, ends, ?_⟩ behind⟩
      intro front back parts some
      cases front with
      | nil =>
        rw [List.nil_append] at parts
        exact parts ▸ plain
      | cons d front => exact inside front back (List.cons.inj parts).2 some
    · exact alone (Or.inr (standsStarts stands (fun text same => code ⟨text, same⟩)))

theorem lexedExists (text : List Char) : ∃ lexemes, Lexed text lexemes := by
  induction size : text.length using Nat.strong_induction_on generalizing text with
  | _ n ih =>
    subst size
    cases text with
    | nil => exact ⟨[], .done⟩
    | cons c tail =>
      cases starts : startsLexeme (c :: tail) with
      | false =>
        obtain ⟨lexemes, lexed⟩ := ih tail.length (by simp) tail rfl
        exact codeLexed lexed starts
      | true =>
        obtain ⟨lexeme, rest, parts, stands, some⟩ := lexemeStarts starts
        have shorter : rest.length < (c :: tail).length := by
          have := List.length_pos_of_ne_nil some
          rw [parts, List.length_append]
          omega
        obtain ⟨lexemes, lexed⟩ := ih rest.length shorter rest rfl
        exact ⟨lexeme :: lexemes, parts ▸ Lexed.next stands lexed⟩

theorem linesReadAsLexemes {lines : List (List Char)} (closed : ∀ line ∈ lines, '\n' ∉ line) :
    (∃ lexemes, Lexed (unlines lines) lexemes) ∧
    (∀ lexemes, Lexed (unlines lines) lexemes →
      ((unlines lines).zip (lexemes.flatMap Lexeme.classes)).filter (fun mark => mark.1 != '\n') =
        (lines.zip (threaded {} lines)).flatMap (fun (line, read) => line.zip read.classes)) ∧
    (threaded {} lines).map (fun read => read.classes.length) = lines.map List.length ∧
    ∀ read ∈ threaded {} lines, read.exit.inString = false ∧ read.exit.delimiter = none := by
  refine ⟨lexedExists _, ?_, threadedSizes _ _, threadedOutside _ _⟩
  intro lexemes lexed
  rw [lexedFlow lexed]
  exact threadedFlow {} closed

-- A quote behind a backslash, a slash at the end of a line before a star, and a comment over two lines
-- whose opening mark has a slash behind it.
theorem mixedLinesRead :
    let lines := ["'\\'' \"//\" /".toList, "* 1 /*/ '".toList, "*/ x # /*".toList]
    (∀ line ∈ lines, '\n' ∉ line) ∧ (∃ lexemes, Lexed (unlines lines) lexemes) ∧
    (∀ lexemes, Lexed (unlines lines) lexemes →
      ((unlines lines).zip (lexemes.flatMap Lexeme.classes)).filter (fun mark => mark.1 != '\n') =
        (lines.zip (threaded {} lines)).flatMap (fun (line, read) => line.zip read.classes)) ∧
    (threaded {} lines).map (fun read => read.classes.length) = lines.map List.length ∧
    ∀ read ∈ threaded {} lines, read.exit.inString = false ∧ read.exit.delimiter = none :=
  ⟨by decide, linesReadAsLexemes (by decide)⟩

end DebugSweep.Lexis
