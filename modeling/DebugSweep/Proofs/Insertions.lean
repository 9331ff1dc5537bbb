import DebugSweep.Edit.Insertion
import DebugSweep.Proofs.Endings

/-! Where a statement is put into a document. Main statement: where the braces match a place is found, the
statement becomes a line of its own there, and nothing else changes but that a block on one line is opened. -/
namespace DebugSweep.Edit
open Text Lexis

def Closed (lines : List (List Char)) : Prop := ∀ line ∈ lines, '\n' ∉ line

structure Indents (indent : List Char) : Prop where
  blank : allBlank indent = true
  flat : '\n' ∉ indent

/-- The characters are blanks, and those that are no steps of an indent come from the lines. -/
def Drawn (lines : List (List Char)) (indent : List Char) : Prop :=
  ∀ c ∈ indent, isBlank c = true ∧ (c = ' ' ∨ c = '\t' ∨ ∃ line ∈ lines, c ∈ line)

def deeperIndent (line : List Char) (options : IndentOptions) : List Char :=
  leadingIndent line ++ indentStep (leadingIndent line) options

section
variable {lines : List (List Char)}

theorem Drawn.lacks {indent : List Char} {c : Char} (drawn : Drawn lines indent) (free : ∀ line ∈ lines, c ∉ line)
    (space : c ≠ ' ') (tab : c ≠ '\t') : c ∉ indent := by
  intro member
  rcases (drawn c member).2 with same | same | ⟨line, known, inside⟩
  · exact space same
  · exact tab same
  · exact free line known inside

theorem Drawn.indents {indent : List Char} (drawn : Drawn lines indent) (closed : Closed lines) : Indents indent :=
  ⟨List.all_eq_true.mpr fun c member => (drawn c member).1, drawn.lacks closed (by decide) (by decide)⟩

theorem Drawn.append {left right : List Char} (first : Drawn lines left) (second : Drawn lines right) :
    Drawn lines (left ++ right) :=
  List.forall_mem_append.mpr ⟨first, second⟩

theorem leadingDrawn {line : List Char} (member : line ∈ lines) : Drawn lines (leadingIndent line) :=
  fun _ inside =>
    ⟨List.mem_takeWhile_imp inside, .inr (.inr ⟨line, member, (List.takeWhile_sublist _).subset inside⟩)⟩

theorem contentDrawn {some : List (List Char)} (known : some ⊆ lines) : Drawn lines (contentIndent some) := by
  induction some with
  | nil => exact fun _ inside => absurd inside List.not_mem_nil
  | cons line rest ih =>
    obtain ⟨member, known⟩ := List.cons_subset.mp known
    rw [contentIndent]
    split
    · exact ih known
    · exact leadingDrawn member

theorem stepDrawn (base : List Char) (options : IndentOptions) : Drawn lines (indentStep base options) := by
  have tab : Drawn lines ['\t'] := by
    intro c inside
    obtain rfl := List.mem_singleton.mp inside
    exact ⟨rfl, .inr (.inl rfl)⟩
  unfold indentStep
  split
  · exact tab
  · split
    · intro c inside
      obtain rfl := (List.mem_replicate.mp inside).2
      exact ⟨rfl, .inl rfl⟩
    · exact tab

theorem deeperDrawn {line : List Char} (member : line ∈ lines) (options : IndentOptions) :
    Drawn lines (deeperIndent line options) :=
  (leadingDrawn member).append (stepDrawn _ options)

end

def nearIndent (lines : List (List Char)) (n : Nat) : List Char :=
  let near := previousIndent lines n
  if near.isEmpty then leadingIndent ((lines[n]?).getD []) else near

theorem nearDrawn (lines : List (List Char)) (n : Nat) : Drawn lines (nearIndent lines n) := by
  unfold nearIndent
  dsimp only
  split
  · cases here : lines[n]? with
    | none => exact fun _ inside => absurd inside List.not_mem_nil
    | some line => exact leadingDrawn (List.mem_of_getElem? here)
  · exact contentDrawn fun line member => List.take_subset _ _ (List.mem_reverse.mp member)

inductive Plan.Source (d : Document) (options : IndentOptions) : Plan → Prop where
  | opening {n : Nat} {line : List Char} (here : d.lines[n]? = some line) (brace : strip line = ['\x7b']) :
      Plan.Source d options { line := n + 1, indent := deeperIndent line options, rule := .afterOpeningBrace }
  | closing {n : Nat} {line : List Char} (here : d.lines[n + 1]? = some line) (brace : strip line = ['\x7d']) :
      Plan.Source d options { line := n + 1, indent := nearIndent d.lines n, rule := .beforeClosingBrace }
  | block {n opened close : Nat} {text : List Char} (here : d.lines[n]? = some text)
      (opens : text[opened]? = some '\x7b') (closes : text[close]? = some '\x7d') (order : opened < close)
      (between : allBlank ((text.take close).drop (opened + 1)) = true) :
      Plan.Source d options
        { line := n, column := close, indent := deeperIndent text options, leadingNewline := true
          rule := .emptyBlock }
  | close {n : Nat} {line : List Char} (here : d.lines[n]? = some line) (brace : (strip line).head? = some '\x7d') :
      Plan.Source d options { line := n, indent := deeperIndent line options, rule := .blockClose }
  | after {n : Nat} (inside : d.lines ≠ [] → n < d.lines.length) :
      Plan.Source d options { line := n + 1, indent := nearIndent d.lines n }

theorem Plan.Source.drawn {d : Document} {options : IndentOptions} {p : Plan} (source : p.Source d options) :
    Drawn d.lines p.indent := by
  cases source with
  | opening here | block here | close here => exact deeperDrawn (List.mem_of_getElem? here) options
  | closing | after => exact nearDrawn d.lines _

theorem codeIndexFound {text : List Char} {wanted : Char} {start place : Nat}
    (found : codeIndex? text wanted start = some place) : start ≤ place ∧ text[place]? = some wanted := by
  obtain ⟨⟨offset, c⟩, first, rfl⟩ := Option.map_eq_some_iff.mp found
  have here := (codeMember.mp (List.mem_of_find?_eq_some first)).1
  have wanted := List.find?_some first
  rw [Bool.and_eq_true, decide_eq_true_eq, beq_iff_eq] at wanted
  obtain ⟨order, rfl⟩ := wanted
  exact ⟨order, here⟩

theorem nextFound {number n : Nat} {lines : List (List Char)} {line : List Char}
    (next : nextContent? number lines = some (n, line)) : ∃ k, n = number + k ∧ lines[k]? = some line := by
  induction lines generalizing number with
  | nil => contradiction
  | cons first rest ih =>
    rw [nextContent?] at next
    split at next
    · obtain ⟨k, rfl, here⟩ := ih next
      exact ⟨k + 1, by omega, here⟩
    · cases next
      exact ⟨0, rfl, rfl⟩

theorem endBound {state : LineState} {depth : Brackets} {number begin : Int} {lines : List (List Char)} {n c : Int}
    (found : endInLines state depth number begin lines = some (n, c)) : number ≤ n ∧ n < number + lines.length := by
  induction lines generalizing state depth number begin with
  | nil => contradiction
  | cons line rest ih =>
    rw [endInLines] at found
    rw [List.length_cons]
    split at found
    · cases found
      omega
    · have bound := ih found
      omega

section
variable {d : Document} {options : IndentOptions} {p : Plan}

theorem closeSource {number : Nat}
    (placed : ((nextContent? number (d.lines.drop number)).bind fun found =>
      if (strip found.2).head? == some '\x7d' then
        some { line := found.1, indent := deeperIndent found.2 options, rule := .blockClose : Plan }
      else none) = some p) : p.Source d options := by
  obtain ⟨⟨n, line⟩, next, last⟩ := Option.bind_eq_some_iff.mp placed
  obtain ⟨brace, same⟩ := Option.ite_none_right_eq_some.mp last
  cases same
  obtain ⟨k, rfl, here⟩ := nextFound next
  exact .close (List.getElem?_drop ▸ here) (beq_iff_eq.mp brace)

theorem blockSource {n : Nat} (placed : planInBlock? d.lines n ((d.lines[n]?).getD []) options = some p) :
    p.Source d options := by
  unfold planInBlock? at placed
  obtain ⟨opening, found, rest⟩ := Option.bind_eq_some_iff.mp placed
  obtain ⟨-, opens⟩ := codeIndexFound found
  cases here : d.lines[n]? with
  | none => simp [here] at opens
  | some line =>
    rw [here, Option.getD_some] at opens rest
    dsimp only at rest
    split at rest
    · rename_i closed
      obtain ⟨order, closes⟩ := codeIndexFound closed
      split at rest
      · rename_i between
        cases rest
        exact .block here opens closes order between
      · exact closeSource rest
    · exact closeSource rest

theorem onwardNat {α : Type} (n : Nat) (items : List α) : onward (n : Int) items = items.drop n := by
  rw [onward, position, if_neg (by omega), Int.toNat_natCast, ← List.drop_eq_drop_min]

theorem endInside {lines : List (List Char)} {n character : Nat} {found place : Int}
    (ends : statementEndInLines? lines n character = some (some (found, place))) : found.toNat < lines.length := by
  have behind : onward (n : Int) lines ++ (if (n : Int) < 0 then lines else []) = lines.drop n := by
    rw [if_neg (by omega), List.append_nil, onwardNat]
  rw [statementEndInLines?, if_neg (by omega), behind] at ends
  cases tail : lines.drop n with
  | nil =>
    rw [tail] at ends
    cases Option.some.inj ends
  | cons first rest =>
    rw [tail] at ends
    have bound := endBound (Option.some.inj ends)
    have size := congrArg List.length tail
    rw [List.length_drop] at size
    rw [List.length_cons] at bound size
    omega

theorem afterSource {n character : Nat} (inside : d.lines ≠ [] → n < d.lines.length) :
    (planAfter d.lines n character).Source d options := by
  unfold planAfter
  dsimp only
  split
  · rename_i ends
    exact .after fun _ => endInside ends
  · exact .after inside

theorem loneFound {n : Nat} {brace : Char} (lone : ((d.lines[n]?).map strip).getD [] == [brace]) :
    ∃ line, d.lines[n]? = some line ∧ strip line = [brace] := by
  cases here : d.lines[n]? with
  | none => simp [here] at lone
  | some line =>
    rw [here] at lone
    exact ⟨line, rfl, beq_iff_eq.mp lone⟩

theorem planBalanced (balanced : d.checkBalance = .ok ()) (s : Selection) (options : IndentOptions) :
    ∃ p, plan d s options = .ok p ∧ p.Source d options := by
  have inside : d.lines ≠ [] → min s.endLine (d.lines.length - 1) < d.lines.length := by
    intro some
    have := List.length_pos_iff.mpr some
    omega
  unfold plan
  rw [balanced]
  change ∃ p, (ite _ _ _ : Except Fault Plan) = .ok p ∧ _
  generalize min s.endLine (d.lines.length - 1) = n at inside
  split
  · rename_i opens
    obtain ⟨line, here, brace⟩ := loneFound opens
    have bound : n + 1 < d.lines.length := (List.getElem?_eq_some_iff.mp here).1
    refine ⟨_, rfl, ?_⟩
    rw [here, Option.getD_some, Nat.min_eq_left bound]
    exact .opening here brace
  · split
    · rename_i closes
      obtain ⟨line, here, brace⟩ := loneFound closes
      exact ⟨_, rfl, .closing here brace⟩
    · split
      · rename_i placed
        exact ⟨_, rfl, blockSource placed⟩
      · exact ⟨_, rfl, afterSource inside⟩

theorem planSource {s : Selection} (planned : plan d s options = .ok p) : p.Source d options := by
  have steps := planned
  unfold plan at steps
  obtain ⟨⟨⟩, balanced, -⟩ := bindOkIff.mp steps
  obtain ⟨p', same, source⟩ := planBalanced balanced s options
  cases planned.symm.trans same
  exact source

end

/-- A place in the document: the start of a line or its end, or inside a line that then goes on behind the
statement. -/
structure Plan.Fits (p : Plan) (d : Document) : Prop where
  indents : Indents p.indent
  column : p.leadingNewline = false → p.column = 0
  inside : p.leadingNewline = true → p.line < d.count

theorem planFits {d : Document} {s : Selection} {options : IndentOptions} {p : Plan} (closed : Closed d.lines)
    (planned : plan d s options = .ok p) : p.Fits d := by
  have source := planSource planned
  have drawn := source.drawn
  cases source with
  | block here opens closes order between =>
    exact ⟨drawn.indents closed, nofun, fun _ => (List.getElem?_eq_some_iff.mp here).1⟩
  | _ => exact ⟨drawn.indents closed, fun _ => rfl, nofun⟩

theorem unlinesSplit (above below : List (List Char)) (left right : List Char) :
    unlines (above ++ [left]) ++ unlines (right :: below) = unlines (above ++ (left ++ right) :: below) := by
  induction above with
  | nil =>
    rw [List.nil_append, List.nil_append, unlinesOne]
    cases below with
    | nil => rw [unlinesOne, unlinesOne]
    | cons next below => rw [unlinesCons, unlinesCons, List.append_assoc]
  | cons line above ih =>
    cases above with
    | nil =>
      simp only [List.cons_append, List.nil_append, unlinesCons, List.append_assoc] at ih ⊢
      rw [ih]
    | cons next above =>
      simp only [List.cons_append, unlinesCons, List.append_assoc] at ih ⊢
      rw [ih]

theorem unlinesLength (above : List (List Char)) (left : List Char) (n : Nat) :
    above.foldl (fun total line => total + line.length + 1) n + left.length =
      n + (unlines (above ++ [left])).length := by
  induction above generalizing n with
  | nil => simp [unlinesOne]
  | cons line above ih =>
    rw [List.foldl_cons, ih]
    cases above with
    | nil =>
      simp only [List.cons_append, List.nil_append, unlinesCons, List.length_append, List.length_cons]
      omega
    | cons next above =>
      simp only [List.cons_append, unlinesCons, List.length_append, List.length_cons]
      omega

def Plan.above (p : Plan) (d : Document) : List (List Char) :=
  d.lines.take p.line ++
    if p.leadingNewline then [((d.lines[p.line]?).getD []).take p.column] else []

def Plan.below (p : Plan) (d : Document) : List (List Char) :=
  match d.lines.drop p.line with
  | [] => [[]]
  | line :: rest => line.drop p.column :: rest

section
variable {d : Document} {p : Plan} {statement : List Char}

theorem belowInside {line : List Char} (here : d.lines[p.line]? = some line) :
    p.below d = line.drop p.column :: d.lines.drop (p.line + 1) := by
  rw [Plan.below, dropHere here]

theorem belowLast (last : p.line = d.lines.length) : p.below d = [[]] := by
  rw [Plan.below, last, List.drop_length]

theorem offsetInside {line : List Char} (here : d.lines[p.line]? = some line) :
    d.text.take (d.offsetOf p.line p.column) = unlines (d.lines.take p.line ++ [line.take p.column]) ∧
      d.text.drop (d.offsetOf p.line p.column) = unlines (p.below d) := by
  have whole : d.text = unlines (d.lines.take p.line ++ [line.take p.column]) ++ unlines (p.below d) := by
    rw [belowInside here, unlinesSplit, List.take_append_drop, ← splitHere here]
    rfl
  have size : (unlines (d.lines.take p.line ++ [line.take p.column])).length = d.offsetOf p.line p.column := by
    have length := unlinesLength (d.lines.take p.line) (line.take p.column) 0
    rw [Nat.zero_add] at length
    rw [← length]
    simp [Document.offsetOf, here]
  constructor
  · rw [whole, List.take_left' size]
  · rw [whole, List.drop_left' size]

theorem insidePlaced (fits : p.Fits d) (inside : p.line < d.lines.length) :
    d.text.take (d.offsetOf p.line p.column) ++ render p statement ++ d.text.drop (d.offsetOf p.line p.column) =
      unlines (p.above d ++ (p.indent ++ statement) :: p.below d) := by
  have here : d.lines[p.line]? = some d.lines[p.line] := List.getElem?_eq_getElem inside
  obtain ⟨front, back⟩ := offsetInside here
  rw [front, back, belowInside here, render, Plan.above, here, Option.getD_some]
  generalize d.lines[p.line] = line
  generalize d.lines.drop (p.line + 1) = rest
  cases leading : p.leadingNewline with
  | false =>
    have split := unlinesSplit (d.lines.take p.line) (line.drop p.column :: rest) [] (p.indent ++ statement)
    rw [unlinesCons] at split
    rw [fits.column leading, List.take_zero] at *
    simpa using split
  | true =>
    have split := unlinesSplit (d.lines.take p.line) ((p.indent ++ statement) :: line.drop p.column :: rest)
      (line.take p.column) []
    rw [unlinesCons, unlinesCons] at split
    simpa using split

theorem lastAbove (fits : p.Fits d) (last : p.line = d.lines.length) :
    p.leadingNewline = false ∧ p.above d = d.lines := by
  have plain : p.leadingNewline = false := by
    rw [Bool.eq_false_iff]
    intro leading
    have inside : p.line < d.lines.length := fits.inside leading
    omega
  exact ⟨plain, by simp [Plan.above, plain, last]⟩

theorem lastPlaced (some : d.text ≠ []) (fits : p.Fits d) (last : p.line = d.lines.length) :
    d.text ++ '\n' :: render p statement = unlines (p.above d ++ (p.indent ++ statement) :: p.below d) := by
  obtain ⟨plain, above⟩ := lastAbove fits last
  obtain ⟨front, line, parts⟩ : ∃ front line, d.lines = front ++ [line] := by
    rcases List.eq_nil_or_concat' d.lines with none | parts
    · exact absurd (by rw [Document.text, none]; rfl) some
    · exact parts
  have split := unlinesSplit front [p.indent ++ statement, []] line []
  rw [List.append_nil, unlinesCons, unlinesCons, unlinesOne] at split
  rw [above, belowLast last, render, plain, Document.text, parts]
  simpa using split

theorem applyBound {e : Document} (applied : apply d p statement = .ok e) : p.line ≤ d.lines.length := by
  unfold apply Document.insert at applied
  split at applied
  · contradiction
  · rename_i known
    by_contra! outside
    exact known (by simp [Document.count, outside])

theorem applyLast (last : p.line = d.lines.length) : apply d p statement =
    .ok (.ofText (if d.text.isEmpty then render p statement else d.text ++ '\n' :: render p statement)) := by
  have same : ((p.line : Int) == (d.count : Int)) = true := beq_iff_eq.mpr (congrArg Nat.cast last)
  rw [apply, Document.insert, if_neg (by simp [Document.count, last])]
  exact if_pos same

theorem applyInside (inside : p.line < d.lines.length) : apply d p statement =
    .ok (.ofText (d.text.take (d.offsetOf p.line p.column) ++ render p statement ++
      d.text.drop (d.offsetOf p.line p.column))) := by
  have other : ¬ ((p.line : Int) == (d.count : Int)) = true := by
    rw [beq_iff_eq, Document.count]
    omega
  rw [apply, Document.insert, if_neg (by simp [Document.count]; omega)]
  exact if_neg other

theorem applyPlaced (fits : p.Fits d) (bound : p.line ≤ d.lines.length) (held : p.line = d.lines.length → d.text ≠ []) :
    apply d p statement = .ok (.ofText (unlines (p.above d ++ (p.indent ++ statement) :: p.below d))) := by
  rcases Nat.lt_or_eq_of_le bound with inside | last
  · rw [applyInside inside, insidePlaced fits inside]
  · rw [applyLast last, if_neg (by simpa using held last), lastPlaced (held last) fits last]

theorem aboveWithin {line : List Char} (member : line ∈ p.above d) : line = [] ∨ ∃ whole ∈ d.lines, line ⊆ whole := by
  rcases List.mem_append.mp member with early | last
  · exact .inr ⟨line, List.take_subset _ _ early, List.Subset.refl _⟩
  · split at last
    · obtain rfl := List.mem_singleton.mp last
      cases found : d.lines[p.line]? with
      | none => exact .inl (by simp)
      | some whole => exact .inr ⟨whole, List.mem_of_getElem? found, List.take_subset _ _⟩
    · contradiction

theorem belowWithin {line : List Char} (member : line ∈ p.below d) : line = [] ∨ ∃ whole ∈ d.lines, line ⊆ whole := by
  unfold Plan.below at member
  split at member
  · exact .inl (List.mem_singleton.mp member)
  · rename_i first rest parts
    have known : first :: rest ⊆ d.lines := parts ▸ List.drop_subset _ _
    rcases List.mem_cons.mp member with rfl | later
    · exact .inr ⟨first, known List.mem_cons_self, List.drop_subset _ _⟩
    · exact .inr ⟨line, known (List.mem_cons_of_mem _ later), List.Subset.refl _⟩

theorem placedLacks {c : Char} (free : ∀ line ∈ d.lines, c ∉ line) (indent : c ∉ p.indent) (added : c ∉ statement) :
    ∀ line ∈ p.above d ++ (p.indent ++ statement) :: p.below d, c ∉ line := by
  have within {line : List Char} (known : line = [] ∨ ∃ whole ∈ d.lines, line ⊆ whole) : c ∉ line := by
    rcases known with rfl | ⟨whole, member, within⟩
    · exact List.not_mem_nil
    · exact fun inside => free whole member (within inside)
  intro line member
  rcases List.mem_append.mp member with early | late
  · exact within (aboveWithin early)
  · rcases List.mem_cons.mp late with rfl | later
    · rw [List.mem_append]
      exact fun inside => inside.elim indent added
    · exact within (belowWithin later)

end

theorem textClosed (text : List Char) : Closed (Document.ofText text).lines := by
  intro line member feed
  obtain ⟨raw, known, rfl⟩ := List.mem_map.mp member
  exact Clear.lineClosed known ((returnsBehind raw).1 ▸ List.mem_append_left _ feed)

theorem textHeld (text : List Char) : (Document.ofText text).lines ≠ [] := by
  rw [Document.ofText, ne_eq, List.map_eq_nil_iff]
  exact Clear.linesHeld text

theorem textLines (text : List Char) : lines (Document.ofText text).text = (Document.ofText text).lines := by
  rw [Document.text, Clear.linesUnlines (textClosed text), if_neg (textHeld text)]

theorem emptyLines {d : Document} (empty : d.text = []) : d.lines = [] ∨ d.lines = [[]] := by
  rw [Document.text] at empty
  generalize d.lines = lines at empty ⊢
  rcases lines with - | ⟨line, - | ⟨next, rest⟩⟩
  · exact .inl rfl
  · rw [unlinesOne] at empty
    exact .inr (by rw [empty])
  · rw [unlinesCons] at empty
    simp at empty

theorem unlinesRead {parts : List (List Char)} (closed : Closed parts) (some : parts ≠ []) :
    (Document.ofText (unlines parts)).lines = parts.map (dropEnd '\r') := by
  rw [Document.ofText, Clear.linesUnlines closed, if_neg some]

theorem appliedLines {d e : Document} {p : Plan} {statement : List Char} (closed : Closed d.lines) (some : d.text ≠ [])
    (fits : p.Fits d) (flat : '\n' ∉ statement) (applied : apply d p statement = .ok e) :
    p.line ≤ d.lines.length ∧
      ∃ below, lines e.text = (p.above d ++ (p.indent ++ statement) :: below).map (dropEnd '\r') := by
  have bound := applyBound applied
  rw [applyPlaced fits bound fun _ => some] at applied
  cases applied
  refine ⟨bound, p.below d, ?_⟩
  rw [textLines, unlinesRead (placedLacks closed fits.indents.flat flat) (by simp)]

/-- A statement is put in at the planned place, as a line of its own, and nothing else changes. A block that was on
one line is then on three. -/
structure Plan.Inserts (p : Plan) (d : Document) (statement : List Char) (e : Document) : Prop where
  line : p.line ≤ d.count
  column : ∀ line, d.lines[p.line]? = some line → p.column ≤ line.length
  between : p.rule ≠ .emptyBlock → p.line < d.count →
    e.lines = d.lines.take p.line ++ (p.indent ++ statement) :: d.lines.drop p.line
  last : p.line = d.count → e.lines = (if d.text = [] then [] else d.lines) ++ [p.indent ++ statement, []]
  block : p.rule = .emptyBlock → ∃ front blanks back,
    d.lines[p.line]? = some (front ++ '\x7b' :: (blanks ++ '\x7d' :: back)) ∧ allBlank blanks = true ∧
      p.column = (front ++ '\x7b' :: blanks).length ∧
      e.lines = d.lines.take p.line ++
        (front ++ '\x7b' :: blanks) :: (p.indent ++ statement) :: ('\x7d' :: back) :: d.lines.drop (p.line + 1)

theorem blockParts {text : List Char} {opened close : Nat} (opens : text[opened]? = some '\x7b')
    (closes : text[close]? = some '\x7d') (order : opened < close) :
    text.take close = text.take opened ++ '\x7b' :: (text.take close).drop (opened + 1) ∧
      text.drop close = '\x7d' :: text.drop (close + 1) := by
  have here : (text.take close)[opened]? = some '\x7b' := by rw [List.getElem?_take, if_pos order, opens]
  have parts := splitHere here
  rw [List.take_take, Nat.min_eq_left (Nat.le_of_lt order)] at parts
  exact ⟨parts, dropHere closes⟩

theorem unlinesPlain {parts : List (List Char)} (closed : Closed parts) (plain : ∀ line ∈ parts, '\r' ∉ line)
    (held : parts ≠ []) : Document.ofText (unlines parts) = ⟨parts⟩ := by
  have kept : ∀ line ∈ parts, dropEnd '\r' line = id line := by
    intro line member
    have same := @dropEndPlain line [] (plain line member) (by simp)
    rwa [List.append_nil] at same
  have same : parts.map (dropEnd '\r') = parts := (List.map_congr_left kept).trans (List.map_id parts)
  exact congrArg Document.mk ((unlinesRead closed held).trans same)

theorem lineWithin {text line : List Char} (member : line ∈ lines text) : line ⊆ text := by
  obtain ⟨above, below, parts⟩ := List.append_of_mem member
  have front := unlinesSplit above below [] line
  have back := unlinesSplit [] below line []
  rw [List.nil_append, List.append_nil, unlinesOne] at back
  rw [List.nil_append, ← parts, Clear.unlinesLines, ← List.nil_append (line :: below), ← back] at front
  rw [← front]
  exact fun c inside => List.mem_append_right _ (List.mem_append_left _ inside)

theorem textPlain {text : List Char} (plain : '\r' ∉ text) : ∀ line ∈ (Document.ofText text).lines, '\r' ∉ line := by
  intro line member inside
  obtain ⟨raw, known, rfl⟩ := List.mem_map.mp member
  exact plain (lineWithin known ((returnsBehind raw).1 ▸ List.mem_append_left _ inside))

section
variable {d : Document} {options : IndentOptions} {p : Plan} {statement : List Char}

theorem Plan.Source.bound (source : p.Source d options) (held : d.lines ≠ []) : p.line ≤ d.lines.length := by
  cases source with
  | opening here =>
    have inside : _ < d.lines.length := (List.getElem?_eq_some_iff.mp here).1
    exact inside
  | closing here | block here | close here => exact (List.getElem?_eq_some_iff.mp here).1.le
  | after inside => exact inside held

theorem Plan.Source.leading (source : p.Source d options) : p.leadingNewline = true ↔ p.rule = .emptyBlock := by
  cases source <;> simp

theorem Plan.Source.column (source : p.Source d options) (line : List Char) (here : d.lines[p.line]? = some line) :
    p.column ≤ line.length := by
  cases source with
  | block here' opens closes =>
    cases here.symm.trans here'
    exact (List.getElem?_eq_some_iff.mp closes).1.le
  | _ => exact Nat.zero_le _

theorem applyExactly (fits : p.Fits d) (bound : p.line ≤ d.lines.length) (closed : Closed d.lines)
    (plain : ∀ line ∈ d.lines, '\r' ∉ line) (indent : '\r' ∉ p.indent) (flat : '\n' ∉ statement)
    (unreturned : '\r' ∉ statement) :
    apply d p statement = .ok ⟨if p.line = d.lines.length ∧ d.text = [] then [p.indent ++ statement, []]
      else p.above d ++ (p.indent ++ statement) :: p.below d⟩ := by
  by_cases fresh : p.line = d.lines.length ∧ d.text = []
  · obtain ⟨last, none⟩ := fresh
    have written : render p statement = unlines [p.indent ++ statement, []] := by
      rw [render, (lastAbove fits last).1, unlinesCons, unlinesOne]
      rfl
    have lacks {c : Char} (first : c ∉ p.indent) (second : c ∉ statement) :
        ∀ line ∈ [p.indent ++ statement, []], c ∉ line := by simp [first, second]
    rw [if_pos ⟨last, none⟩, applyLast last, if_pos (by simp [none]), written,
      unlinesPlain (lacks fits.indents.flat flat) (lacks indent unreturned) (by simp)]
  · rw [if_neg fresh, applyPlaced fits bound fun last none => fresh ⟨last, none⟩,
      unlinesPlain (placedLacks closed fits.indents.flat flat) (placedLacks plain indent unreturned) (by simp)]

theorem Plan.Source.inserts (source : p.Source d options) (fits : p.Fits d) (held : d.lines ≠ []) {e : Document}
    (lines : e.lines = if p.line = d.lines.length ∧ d.text = [] then [p.indent ++ statement, []]
      else p.above d ++ (p.indent ++ statement) :: p.below d) : p.Inserts d statement e := by
  refine ⟨source.bound held, source.column, fun other inside => ?_, fun last => ?_, fun empty => ?_⟩
  · have leading : p.leadingNewline = false := Bool.eq_false_iff.mpr fun leads => other (source.leading.mp leads)
    have inside : p.line < d.lines.length := inside
    rw [lines, if_neg (by omega), Plan.above, leading, belowInside (List.getElem?_eq_getElem inside),
      fits.column leading, List.drop_zero, List.getElem_cons_drop]
    simp
  · rw [lines, (lastAbove fits last).2, belowLast last]
    by_cases none : d.text = []
    · rw [if_pos ⟨last, none⟩, if_pos none]
      rfl
    · rw [if_neg (fun fresh => none fresh.2), if_neg none]
  · cases source with
    | @block n opened close text here opens closes order between =>
      obtain ⟨front, back⟩ := blockParts opens closes order
      have inside : n < d.lines.length := (List.getElem?_eq_some_iff.mp here).1
      have size : (text.take close).length = close := by
        have := (List.getElem?_eq_some_iff.mp closes).1
        simp
        omega
      refine ⟨text.take opened, (text.take close).drop (opened + 1), text.drop (close + 1), ?_, between, ?_, ?_⟩
      · rw [here, ← back, ← List.cons_append, ← List.append_assoc, ← front, List.take_append_drop]
      · rw [← front, size]
      · rw [lines, if_neg (by simp; omega), belowInside here, ← back, ← front, Plan.above, here]
        simp
    | _ => contradiction

end

theorem insertedExactly {source statement : List Char} (s : Selection) (options : IndentOptions)
    (plain : '\r' ∉ source) (balanced : (Document.ofText source).checkBalance = .ok ())
    (flat : '\n' ∉ statement) (unreturned : '\r' ∉ statement) :
    ∃ p e, plan (.ofText source) s options = .ok p ∧ apply (.ofText source) p statement = .ok e ∧
      p.Inserts (.ofText source) statement e := by
  have closed := textClosed source
  have lacks := textPlain plain
  have held : (Document.ofText source).lines ≠ [] := by
    rw [Document.ofText, ne_eq, List.map_eq_nil_iff]
    exact List.splitOn_ne_nil _ _
  obtain ⟨p, planned, found⟩ := planBalanced balanced s options
  have fits := planFits closed planned
  have indent := found.drawn.lacks lacks (by decide) (by decide)
  exact ⟨p, _, planned, applyExactly fits (found.bound held) closed lacks indent flat unreturned,
    found.inserts fits held rfl⟩

def blockOnLine : List Char := "f(); // \x7b\nif ($a) \x7b \x7d g();".toList

theorem blockOnLineOpened :
    ∃ p e, plan (.ofText blockOnLine) ⟨1, 4, 1, 6⟩ {} = .ok p ∧
      apply (.ofText blockOnLine) p "dd($a);".toList = .ok e ∧
      p.Inserts (.ofText blockOnLine) "dd($a);".toList e ∧ p.rule = .emptyBlock ∧
      e.lines = ["f(); // \x7b", "if ($a) \x7b ", "    dd($a);", "\x7d g();"].map String.toList := by
  obtain ⟨p, e, planned, applied, inserts⟩ := @insertedExactly blockOnLine "dd($a);".toList ⟨1, 4, 1, 6⟩ {}
    (by decide +kernel) (by decide +kernel) (by decide +kernel) (by decide +kernel)
  have known : plan (.ofText blockOnLine) ⟨1, 4, 1, 6⟩ {} = .ok ⟨1, 10, "    ".toList, true, .emptyBlock⟩ := by
    decide +kernel
  obtain rfl := Except.ok.inj (planned.symm.trans known)
  refine ⟨_, e, planned, applied, inserts, rfl, ?_⟩
  have edited : apply (.ofText blockOnLine) ⟨1, 10, "    ".toList, true, .emptyBlock⟩ "dd($a);".toList =
      .ok ⟨["f(); // \x7b", "if ($a) \x7b ", "    dd($a);", "\x7d g();"].map String.toList⟩ := by
    decide +kernel
  exact congrArg Document.lines (Except.ok.inj (applied.symm.trans edited))

end DebugSweep.Edit
