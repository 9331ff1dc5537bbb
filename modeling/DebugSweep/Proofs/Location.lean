import DebugSweep.Scan
import DebugSweep.Proofs.Reading
import DebugSweep.Proofs.Segments

/-! Where reported statements start. A statement is recognised in the code of its line but located
by the first text that reads as its token. Main statement: every statement starts with its token,
and all of them start in code exactly when no token that a comment or a string interrupts is
located in a string or a comment instead. -/
namespace DebugSweep.Scan
open Lexis Text

structure Row where
  number : Nat
  line : List Char
  state : LineState

namespace Row

def classes (r : Row) : List CharClass := (classify r.line r.state).classes

def code (r : Row) : CodeLine := codeOf r.line r.state

def statements (r : Row) : List Merged :=
  if mentionsToken r.code.text then merge (segments r.code.text) else []

def anchor (r : Row) (m : Merged) : Nat := r.code.rawOffset m.segment.leading

def Spells (r : Row) (m : Merged) : Prop :=
  (dropToken? m.kind.token.toList (r.line.drop (r.anchor m))).isSome

instance (r : Row) (m : Merged) : Decidable (r.Spells m) := inferInstanceAs (Decidable (_ = true))

def findings (origin : Origin) (r : Row) : List Finding :=
  r.statements.filterMap (finding? origin r.number r.line r.code)

def ShowsToken (r : Row) (f : Finding) : Prop :=
  ∃ column : Nat, f.column = column ∧
    (dropToken? f.kind.token.toList (r.line.drop column)).isSome

def StartsInCode (r : Row) (f : Finding) : Prop :=
  ∃ column : Nat, f.column = column ∧ r.classes[column]? = some .code

instance (r : Row) (f : Finding) : Decidable (r.StartsInCode f) :=
  decidable_of_iff (0 ≤ f.column ∧ r.classes[f.column.toNat]? = some .code)
    ⟨fun ⟨positive, live⟩ => ⟨f.column.toNat, (Int.toNat_of_nonneg positive).symm, live⟩,
      fun ⟨column, same, live⟩ => by simpa [same] using live⟩

end Row

def rowsFrom (number : Nat) (state : LineState) : List (List Char) → List Row
  | [] => []
  | raw :: rest =>
      let line := dropEnd '\r' raw
      ⟨number, line, state⟩ :: rowsFrom (number + 1) (classify line state).exit rest

def rows (source : List Char) : List Row := rowsFrom 1 {} (lines source)

theorem lineRow (origin : Origin) (number : Nat) (state : LineState) (raw : List Char) :
    line origin number state raw =
      (Row.findings origin ⟨number, dropEnd '\r' raw, state⟩,
        (classify (dropEnd '\r' raw) state).exit) := by
  let row : Row := ⟨number, dropEnd '\r' raw, state⟩
  show (if mentionsToken row.code.text then
    ((merge (segments row.code.text)).filterMap (finding? origin number row.line row.code),
      row.code.exit) else ([], row.code.exit)) = (row.findings origin, row.code.exit)
  unfold Row.findings Row.statements
  split <;> rfl

theorem linesFromRows (origin : Origin) (number : Nat) (state : LineState) (done : List Finding)
    (raws : List (List Char)) :
    linesFrom origin number state done raws =
      done.reverse ++ (rowsFrom number state raws).flatMap (Row.findings origin) := by
  induction raws generalizing number state done with
  | nil => simp [linesFrom, rowsFrom]
  | cons raw rest ih =>
    have next := ih (number + 1) (classify (dropEnd '\r' raw) state).exit
      ((Row.findings origin ⟨number, dropEnd '\r' raw, state⟩).reverse ++ done)
    simp only [linesFrom, lineRow]
    rw [show ((number : Int) + 1) = ((number + 1 : Nat) : Int) by simp, next]
    simp [rowsFrom]

theorem textRows (origin : Origin) (source : List Char) :
    text origin source = (rows source).flatMap (Row.findings origin) := by
  simpa [text, rows] using linesFromRows origin 1 {} [] (lines source)

theorem rowNumber {number : Nat} {state : LineState} {raws : List (List Char)} {n : Nat} {row : Row}
    (found : (rowsFrom number state raws)[n]? = some row) : row.number = number + n := by
  induction raws generalizing number state n with
  | nil => simp [rowsFrom] at found
  | cons raw rest ih =>
    cases n with
    | zero =>
      simp only [rowsFrom, List.getElem?_cons_zero, Option.some.injEq] at found
      subst row
      rfl
    | succ n =>
      have := ih found
      omega

theorem findTokenFound {token : List Char} {offset place : Nat} {text : List Char}
    (found : findToken? token offset text = some place) :
    ∃ i, place = offset + i ∧ i < text.length ∧ (dropToken? token (text.drop i)).isSome := by
  induction text generalizing offset with
  | nil => simp [findToken?] at found
  | cons c rest ih =>
    simp only [findToken?] at found
    split at found
    · rename_i here
      cases Option.some.inj found
      exact ⟨0, rfl, by simp, by simpa using here⟩
    · obtain ⟨i, same, inside, here⟩ := ih found
      exact ⟨i + 1, by omega, by simpa using inside, by simpa using here⟩

theorem locateTokenFound {line token : List Char} {anchor place : Nat}
    (found : locateToken? line token anchor = some place) :
    place < line.length ∧ (dropToken? token (line.drop place)).isSome := by
  unfold locateToken? at found
  split at found
  · rename_i start first
    cases Option.some.inj found
    obtain ⟨i, rfl, inside, here⟩ := findTokenFound first
    rw [List.length_drop] at inside
    rw [List.drop_drop] at here
    exact ⟨by omega, here⟩
  · obtain ⟨i, rfl, inside, here⟩ := findTokenFound found
    rw [Nat.zero_add]
    exact ⟨inside, here⟩

theorem dropTokenHead {t : Char} {token text : List Char}
    (here : (dropToken? (t :: token) text).isSome) :
    ∃ c rest, text = c :: rest ∧ sameLetter t c = true := by
  cases text with
  | nil => simp [dropToken?] at here
  | cons c rest =>
    simp only [dropToken?] at here
    split at here
    · exact ⟨c, rest, rfl, by assumption⟩
    · simp at here

theorem locateSpelled {line : List Char} {kind : Kind} {anchor : Nat}
    (here : (dropToken? kind.token.toList (line.drop anchor)).isSome) :
    locateToken? line kind.token.toList anchor = some anchor := by
  obtain ⟨t, token, spelled⟩ := tokenNotEmpty kind
  rw [spelled] at here ⊢
  obtain ⟨c, rest, starts, _⟩ := dropTokenHead here
  rw [starts] at here
  simp [locateToken?, starts, findToken?, here]

def blanks : List Char :=
  ([0x9, 0xa, 0xb, 0xc, 0xd, 0x1c, 0x1d, 0x1e, 0x1f, 0x20, 0x85, 0xa0, 0x1680, 0x2000, 0x2001,
    0x2002, 0x2003, 0x2004, 0x2005, 0x2006, 0x2007, 0x2008, 0x2009, 0x200a, 0x2028, 0x2029, 0x202f,
    0x205f, 0x3000] : List Nat).map Char.ofNat

theorem blankListed {c : Char} (blank : isBlank c = true) : c ∈ blanks := by
  have known : c = Char.ofNat c.toNat := (Char.ofNat_toNat c).symm
  rw [known]
  apply List.mem_map_of_mem
  simp only [isBlank, Bool.or_eq_true, Bool.and_eq_true, decide_eq_true_eq, beq_iff_eq] at blank
  simp only [List.mem_cons, List.not_mem_nil, or_false]
  omega

theorem blankLower {c : Char} (blank : isBlank c = true) : lowerChar c = c := by
  have every : blanks.all (fun c => lowerChar c == c) = true := by decide +kernel
  simpa using List.all_eq_true.mp every c (blankListed blank)

theorem sameLetterLower {t c : Char} (same : sameLetter t c = true) :
    lowerChar c ∈ lowerChar t :: variantsOf (lowerChar t) := by
  unfold sameLetter at same
  split at same
  · rename_i plain
    rw [Bool.and_eq_true, decide_eq_true_eq, decide_eq_true_eq] at plain
    rw [beq_iff_eq] at same
    simp [lowerChar, plain.1, plain.2, same]
  · simpa using same

theorem tokenLetters (kind : Kind) : kind.token.toList.head?.all
    (fun t => (lowerChar t :: variantsOf (lowerChar t)).all (fun v => !isBlank v)) = true := by
  cases kind <;> decide +kernel

theorem tokenVisible {kind : Kind} {text : List Char}
    (here : (dropToken? kind.token.toList text).isSome) :
    ∃ c rest, text = c :: rest ∧ isBlank c = false := by
  obtain ⟨t, token, spelled⟩ := tokenNotEmpty kind
  have letters := tokenLetters kind
  rw [spelled] at here letters
  obtain ⟨c, rest, starts, same⟩ := dropTokenHead here
  refine ⟨c, rest, starts, ?_⟩
  cases blank : isBlank c with
  | false => rfl
  | true =>
    have variant := sameLetterLower same
    rw [blankLower blank] at variant
    have visible := List.all_eq_true.mp letters c variant
    rw [blank] at visible
    contradiction

theorem stripVisible {text : List Char} {c : Char} (member : c ∈ text) (visible : isBlank c = false) :
    strip text ≠ [] := by
  intro empty
  have tail : ∀ d ∈ dropBlanks text, isBlank d = true := by
    simpa [strip, dropBlanksEnd, List.dropWhile_eq_nil_iff] using empty
  rw [← List.takeWhile_append_dropWhile (p := isBlank) (l := text)] at member
  rcases List.mem_append.mp member with front | back
  · rw [List.mem_takeWhile_imp front] at visible
    contradiction
  · rw [tail c back] at visible
    contradiction

theorem terminatorInside {depth : Brackets} {chars : List (Nat × Char)} {offset : Nat}
    (found : findTerminator depth chars = .ok offset) : (offset, ';') ∈ chars := by
  induction chars generalizing depth with
  | nil => simp [findTerminator] at found
  | cons head rest ih =>
    obtain ⟨o, c⟩ := head
    simp only [findTerminator] at found
    split at found
    · rename_i stop
      cases found
      simp only [Bool.and_eq_true, beq_iff_eq] at stop
      simp [stop.1]
    · exact List.mem_cons_of_mem _ (ih found)

theorem statementEndBounds {line : List Char} {start : Nat} (inside : start < line.length) :
    start < statementEnd line start ∧ statementEnd line start ≤ line.length := by
  unfold statementEnd
  split
  · rename_i offset found
    have here := (codeMember.mp (terminatorInside found)).1
    rw [List.getElem?_drop] at here
    have := (List.getElem?_eq_some_iff.mp here).1
    omega
  · omega

theorem findHaltFound {before : Option Char} {offset place : Nat} {text : List Char}
    (found : findHalt? before offset text = some place) :
    offset ≤ place ∧ place < offset + text.length := by
  induction text generalizing before offset with
  | nil => simp [findHalt?] at found
  | cons c rest ih =>
    simp only [findHalt?] at found
    split at found
    · cases Option.some.inj found
      simp
    · have := ih found
      simp only [List.length_cons]
      omega

theorem findHaltFromFound {line : List Char} {start place : Nat}
    (found : findHaltFrom? line start = some place) : start ≤ place ∧ place < line.length := by
  have bounds := findHaltFound found
  rw [List.length_drop] at bounds
  omega

theorem locateBounds {line : List Char} {code : CodeLine} {m : Merged} {start : Nat}
    (found : locateToken? line m.kind.token.toList (code.rawOffset m.segment.leading) = some start) :
    ∃ stop, locate? line code m = some (start, stop) ∧ start < stop ∧ stop ≤ line.length := by
  have inside := (locateTokenFound found).1
  have ends := statementEndBounds inside
  simp only [locate?, found, Option.bind_eq_bind, Option.bind_some]
  split
  · exact ⟨_, rfl, ends⟩
  · split
    · exact ⟨_, rfl, ends⟩
    · rename_i halt _ _ place halted
      have later : statementEnd line start ≤ place ∧ place < line.length := by
        rcases Option.or_eq_some_iff.mp halted with first | ⟨_, second⟩
        · have := findHaltFromFound first
          omega
        · exact findHaltFromFound second
      have bounds := statementEndBounds later.2
      exact ⟨_, rfl, by omega, bounds.2⟩

theorem locateSource {line : List Char} {code : CodeLine} {m : Merged} {start stop : Nat}
    (found : locate? line code m = some (start, stop)) :
    locateToken? line m.kind.token.toList (code.rawOffset m.segment.leading) = some start := by
  cases first : locateToken? line m.kind.token.toList (code.rawOffset m.segment.leading) with
  | none => simp [locate?, first] at found
  | some place =>
    obtain ⟨stop', same, _⟩ := locateBounds first
    rw [same] at found
    cases Option.some.inj found
    rfl

structure Tells (number : Nat) (line : List Char) (m : Merged) (start stop : Nat) (f : Finding) :
    Prop where
  lineNumber : f.lineNumber = number
  column : f.column = start
  content : f.content = String.ofList (strip ((line.take stop).drop start))
  kind : f.kind = m.kind

theorem findingSource {origin : Origin} {number : Nat} {line : List Char} {code : CodeLine}
    {m : Merged} {f : Finding} (found : finding? origin number line code m = some f) :
    ∃ start stop, locate? line code m = some (start, stop) ∧ Tells number line m start stop f := by
  unfold finding? at found
  simp only [Option.bind_eq_bind, Option.bind_eq_some_iff] at found
  obtain ⟨⟨start, stop⟩, located, last⟩ := found
  dsimp only at last
  split at last
  · contradiction
  · cases Option.some.inj last
    exact ⟨start, stop, located, rfl, rfl, rfl, rfl⟩

theorem findingLocated (origin : Origin) (number : Nat) {line : List Char} {code : CodeLine}
    {m : Merged} {start : Nat}
    (found : locateToken? line m.kind.token.toList (code.rawOffset m.segment.leading) = some start) :
    ∃ stop f, finding? origin number line code m = some f ∧ Tells number line m start stop f := by
  obtain ⟨stop, located, later, inside⟩ := locateBounds found
  obtain ⟨c, rest, starts, visible⟩ := tokenVisible (locateTokenFound found).2
  have shown : strip ((line.take stop).drop start) ≠ [] := by
    apply stripVisible _ visible
    rw [List.drop_take, starts]
    obtain ⟨n, hn⟩ : ∃ n, stop - start = n + 1 := ⟨stop - start - 1, by omega⟩
    simp [hn]
  cases reported : finding? origin number line code m with
  | none => simp [finding?, located, shown] at reported
  | some f =>
    obtain ⟨start', stop', located', tells⟩ := findingSource reported
    rw [located] at located'
    cases Option.some.inj located'
    exact ⟨stop, f, rfl, tells⟩

namespace Row

theorem statementLies {r : Row} {m : Merged} (member : m ∈ r.statements) :
    m.segment.Lies r.code.text ∧ kindOf? m.segment.text = some m.kind := by
  unfold statements at member
  split at member
  · exact ⟨segmentsLie _ _ (mergeMember member), mergeKind _ m member⟩
  · simp at member

theorem anchorChar {r : Row} {m : Merged} (member : m ∈ r.statements) :
    ∃ c, r.code.chars[m.segment.leading]? = some (r.anchor m, c) := by
  obtain ⟨lies, known⟩ := statementLies member
  have bounds := leadingInside lies known
  have inside : m.segment.leading < r.code.chars.length := by
    have := lies.inside
    simp only [CodeLine.text, List.length_map] at this
    omega
  obtain ⟨⟨o, c⟩, found⟩ : ∃ p, r.code.chars[m.segment.leading]? = some p :=
    ⟨_, List.getElem?_eq_getElem inside⟩
  have same : r.anchor m = o := rawOffsetAt found
  exact ⟨c, by rw [same, found]⟩

theorem anchorInCode {r : Row} {m : Merged} (member : m ∈ r.statements) :
    r.classes[r.anchor m]? = some .code := by
  obtain ⟨c, found⟩ := anchorChar member
  exact (codeMember.mp (List.mem_of_getElem? found)).2

theorem findingShowsToken {origin : Origin} {r : Row} {f : Finding} (member : f ∈ r.findings origin) :
    f.lineNumber = r.number ∧ r.ShowsToken f := by
  obtain ⟨m, _, found⟩ := List.mem_filterMap.mp member
  obtain ⟨start, stop, located, tells⟩ := findingSource found
  have here := (locateTokenFound (locateSource located)).2
  exact ⟨tells.lineNumber, start, tells.column, by rwa [tells.kind]⟩

theorem findingsInCodeIff (origin : Origin) (r : Row) :
    (∀ f ∈ r.findings origin, r.StartsInCode f) ↔
      ∀ m ∈ r.statements, ¬ r.Spells m → ∀ place,
        locateToken? r.line m.kind.token.toList (r.anchor m) = some place →
          r.classes[place]? = some .code := by
  constructor
  · intro all m member _ place found
    obtain ⟨stop, f, reported, tells⟩ := findingLocated origin r.number found
    obtain ⟨column, same, live⟩ := all f (List.mem_filterMap.mpr ⟨m, member, reported⟩)
    have : column = place := by
      have := tells.column
      omega
    rwa [← this]
  · intro condition f member
    obtain ⟨m, recognised, found⟩ := List.mem_filterMap.mp member
    obtain ⟨start, stop, located, tells⟩ := findingSource found
    have first : locateToken? r.line m.kind.token.toList (r.anchor m) = some start :=
      locateSource located
    refine ⟨start, tells.column, ?_⟩
    by_cases spelled : r.Spells m
    · rw [locateSpelled spelled] at first
      cases Option.some.inj first
      exact anchorInCode recognised
    · exact condition m recognised spelled start first

end Row

theorem rowAt {source : List Char} {row : Row} (member : row ∈ rows source) :
    ∃ n, (rows source)[n]? = some row ∧ row.number = n + 1 := by
  obtain ⟨n, found⟩ := List.mem_iff_getElem?.mp member
  exact ⟨n, found, by rw [rowNumber found]; omega⟩

theorem rowUnique {source : List Char} {a b : Row} (left : a ∈ rows source) (right : b ∈ rows source)
    (same : a.number = b.number) : a = b := by
  obtain ⟨n, atN, numberN⟩ := rowAt left
  obtain ⟨k, atK, numberK⟩ := rowAt right
  have : n = k := by omega
  subst this
  exact Option.some.inj (atN.symm.trans atK)

theorem reportedInCodeIff (origin : Origin) (source : List Char) :
    (∀ f ∈ text origin source,
      ∃ row ∈ rows source, f.lineNumber = row.number ∧ row.ShowsToken f) ∧
    ((∀ f ∈ text origin source,
        ∃ row ∈ rows source, f.lineNumber = row.number ∧ row.StartsInCode f) ↔
      ∀ row ∈ rows source, ∀ m ∈ row.statements, ¬ row.Spells m → ∀ place,
        locateToken? row.line m.kind.token.toList (row.anchor m) = some place →
          row.classes[place]? = some .code) := by
  have reported : ∀ f, f ∈ text origin source ↔ ∃ row ∈ rows source, f ∈ row.findings origin := by
    intro f
    rw [textRows, List.mem_flatMap]
  refine ⟨?_, ?_, ?_⟩
  · intro f member
    obtain ⟨row, inside, found⟩ := (reported f).mp member
    exact ⟨row, inside, Row.findingShowsToken found⟩
  · intro all row inside
    apply (Row.findingsInCodeIff origin row).mp
    intro f found
    obtain ⟨row', inside', number, live⟩ := all f ((reported f).mpr ⟨row, inside, found⟩)
    have same : row' = row := by
      apply rowUnique inside' inside
      have := (Row.findingShowsToken found).1
      omega
    rwa [← same]
  · intro condition f member
    obtain ⟨row, inside, found⟩ := (reported f).mp member
    have live := (Row.findingsInCodeIff origin row).mpr (condition row inside) f found
    exact ⟨row, inside, (Row.findingShowsToken found).1, live⟩

theorem interruptedTokenFoundInString :
    ¬ ∀ f ∈ text ⟨"/w/a.php", "a.php"⟩ "ec/**/ho \"echo\";".toList,
      ∃ row ∈ rows "ec/**/ho \"echo\";".toList,
        f.lineNumber = row.number ∧ row.StartsInCode f := by
  decide +kernel

end DebugSweep.Scan
