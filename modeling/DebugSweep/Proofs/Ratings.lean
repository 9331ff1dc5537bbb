import DebugSweep.Proofs.Mentions

/-! Kind and severity of a statement, judged by its content alone. Main statement: the content of a statement
whose token stands in the line in one piece is taken for the same kind if and only if the line itself shows
what the kind asks for behind the token, and with a halt right behind it the statement is an error. -/
namespace DebugSweep.Lexis
open Text

theorem dropTokenShown {token text rest : List Char} (dropped : dropToken? token text = some rest) :
    ∀ (i : Nat) (t : Char), token[i]? = some t → ∃ c, text[i]? = some c ∧ sameLetter t c = true := by
  induction token generalizing text with
  | nil => simp
  | cons t token ih =>
    cases text with
    | nil => contradiction
    | cons c text =>
      rw [dropToken?] at dropped
      split at dropped
      · rename_i same
        intro i u here
        cases i with
        | zero =>
          obtain rfl : t = u := by simpa using here
          exact ⟨c, rfl, same⟩
        | succ i => simpa using ih dropped i u (by simpa using here)
      · contradiction

def Kind.letters (kind : Kind) : List (List Char) :=
  kind.token.toList.map (fun t => lowerChar t :: variantsOf (lowerChar t))

def Kind.shape (kind : Kind) : List (List Char) :=
  kind.letters ++ if kind.follow = .blank then [Scan.blanks] else []

def Shaped (shape : List (List Char)) (text : List Char) : Prop :=
  ∀ (i : Nat) (options : List Char), shape[i]? = some options → ∃ c, text[i]? = some c ∧ lowerChar c ∈ options

def differSomewhere (left right : List (List Char)) : Bool :=
  (left.zip right).any (fun (a, b) => a.all (fun c => !b.contains c))

theorem shapedAlike {left right : List (List Char)} {text : List Char} (first : Shaped left text)
    (second : Shaped right text) : differSomewhere left right = false := by
  rw [← Bool.not_eq_true]
  intro apart
  obtain ⟨⟨a, b⟩, member, disjoint⟩ := List.any_eq_true.mp apart
  obtain ⟨i, here⟩ := List.mem_iff_getElem?.mp member
  obtain ⟨one, other⟩ := List.getElem?_zip_eq_some.mp here
  obtain ⟨c, shown, inside⟩ := first i a one
  obtain ⟨d, shown', inside'⟩ := second i b other
  obtain rfl := Option.some.inj (shown.symm.trans shown')
  simpa [inside'] using List.all_eq_true.mp disjoint _ inside

theorem shapesDiffer : ∀ kind ∈ Kind.all, ∀ other ∈ Kind.all,
    (kind ≠ other → differSomewhere kind.shape other.shape = true) ∧
    (kind ≠ other → other.severity ≠ .info → differSomewhere kind.letters other.shape = true) := by
  decide +kernel

theorem kindListed (kind : Kind) : kind ∈ Kind.all := by
  cases kind <;> decide

theorem lettersShown {kind : Kind} {text : List Char} (spelled : (dropToken? kind.token.toList text).isSome) :
    Shaped kind.letters text := by
  obtain ⟨rest, dropped⟩ := Option.isSome_iff_exists.mp spelled
  intro i options here
  rw [Kind.letters, List.getElem?_map] at here
  obtain ⟨t, letter, rfl⟩ := Option.map_eq_some_iff.mp here
  obtain ⟨c, shown, same⟩ := dropTokenShown dropped i t letter
  exact ⟨c, shown, Scan.sameLetterLower same⟩

theorem leadsShape {kind : Kind} {text : List Char} (leads : kind.leads text = true) :
    Shaped kind.shape (dropBlanks text) := by
  unfold Kind.leads at leads
  split at leads
  · rename_i rest dropped
    obtain ⟨front, split, size, -⟩ := tokenPrefix dropped
    intro i options here
    rw [Kind.shape, List.getElem?_append] at here
    split at here
    · exact lettersShown (by rw [dropped]; rfl) i options here
    · rename_i past
      rw [Kind.letters, List.length_map] at past here
      split at here
      · rename_i follow
        obtain ⟨zero, rfl⟩ : i - kind.token.toList.length = 0 ∧ Scan.blanks = options := by
          simpa [List.getElem?_singleton] using here
        rw [follow, Kind.Follow.holds, Option.any_eq_true] at leads
        obtain ⟨c, first, blank⟩ := leads
        refine ⟨c, ?_, (Scan.blankLower blank).symm ▸ Scan.blankListed blank⟩
        rw [split, List.getElem?_append_right (by omega), size, zero, ← List.head?_eq_getElem?, first]
      · simp at here
  · contradiction

theorem leadsUnique {kind other : Kind} {text : List Char} (leads : kind.leads text = true)
    (leads' : other.leads text = true) : kind = other := by
  by_contra differ
  have apart := (shapesDiffer kind (kindListed kind) other (kindListed other)).1 differ
  rw [shapedAlike (leadsShape leads) (leadsShape leads')] at apart
  contradiction

theorem kindOfIff {kind : Kind} {text : List Char} : kindOf? text = some kind ↔ kind.leads text = true := by
  constructor
  · exact fun known => List.find?_some (p := fun kind : Kind => kind.leads text) known
  · intro leads
    cases known : kindOf? text with
    | none =>
      have none := List.find?_eq_none.mp known kind (kindListed kind)
      exact absurd leads none
    | some other =>
      have leads' : other.leads text = true := List.find?_some (p := fun kind : Kind => kind.leads text) known
      rw [leadsUnique leads leads']

theorem otherHarmless {kind other : Kind} {text : List Char}
    (spelled : (dropToken? kind.token.toList text).isSome) (known : kindOf? text = some other) :
    kind = other ∨ other.severity = .info := by
  obtain ⟨c, rest, rfl, visible⟩ := Scan.tokenVisible spelled
  have still : dropBlanks (c :: rest) = c :: rest := List.dropWhile_cons_of_neg (by simp [visible])
  have shape := leadsShape (kindOfIff.mp known)
  rw [still] at shape
  by_contra! differ
  have apart := (shapesDiffer kind (kindListed kind) other (kindListed other)).2 differ.1 differ.2
  rw [shapedAlike (lettersShown spelled) shape] at apart
  contradiction

theorem severitySpelled {kind : Kind} {text : List Char} (spelled : (dropToken? kind.token.toList text).isSome)
    (quiet : hasHaltTail (codeOf text {}).text = false) :
    severityOf text = if kind.leads text then kind.severity else .info := by
  rw [severityOf, quiet, if_neg (by simp)]
  cases known : kindOf? text with
  | none =>
    have other : ¬ kind.leads text = true := fun leads => by simp [kindOfIff.mpr leads] at known
    rw [if_neg other]
  | some other =>
    by_cases leads : kind.leads text = true
    · obtain rfl : kind = other := Option.some.inj ((kindOfIff.mpr leads).symm.trans known)
      rw [if_pos leads]
    · rw [if_neg leads]
      rcases otherHarmless spelled known with rfl | harmless
      · exact absurd (kindOfIff.mp known) leads
      · exact harmless

theorem leadsBehind {kind : Kind} {front : List Char}
    (again : ∀ rest, dropToken? kind.token.toList (front ++ rest) = some rest) (rest : List Char) :
    kind.leads (front ++ rest) = kind.follow.holds rest := by
  obtain ⟨c, tail, starts, visible⟩ := Scan.tokenVisible (by rw [again rest]; rfl)
  have still : dropBlanks (front ++ rest) = front ++ rest := by
    rw [starts]
    exact List.dropWhile_cons_of_neg (by simp [visible])
  rw [Kind.leads, still, again]

theorem followAppend (follow : Kind.Follow) {text : List Char} {c : Char} (member : c ∈ text)
    (visible : isBlank c = false) (more : List Char) : follow.holds (text ++ more) = follow.holds text := by
  obtain ⟨d, rest, rfl⟩ := List.exists_cons_of_ne_nil (List.ne_nil_of_mem member)
  cases follow with
  | call =>
    have shown : dropBlanks (d :: rest) ≠ [] := fun none =>
      absurd (List.dropWhile_eq_nil_iff.mp none c member) (by simp [visible])
    have same : dropBlanks (d :: rest ++ more) = dropBlanks (d :: rest) ++ more := by
      rw [dropBlanks, List.dropWhile_append, if_neg (by simpa [dropBlanks] using shown)]
      rfl
    rw [Kind.Follow.holds, Kind.Follow.holds, same, List.head?_append_of_ne_nil _ shown]
  | blank => rfl
  | boundary => rfl

theorem sliceSplit {α : Type} (items : List α) {i j k : Nat} (first : i ≤ j) (last : j ≤ k)
    (inside : j ≤ items.length) : (items.take k).drop i = (items.take j).drop i ++ (items.take k).drop j := by
  conv_lhs => rw [← List.take_append_drop j (items.take k), List.take_take, Nat.min_eq_left last]
  exact List.drop_append_of_le_length (by rw [List.length_take]; omega)

theorem blanksLeading {code : List Char} {g : Segment} (lies : g.Lies code) :
    allBlank ((code.take g.leading).drop g.start) = true := by
  refine List.all_eq_true.mpr fun x here => ?_
  obtain ⟨k, here⟩ := List.mem_iff_getElem?.mp here
  rw [List.getElem?_drop, List.getElem?_take] at here
  split at here
  · exact blankBefore lies (Nat.le_add_right _ k) (by assumption) here
  · contradiction

theorem codeAcross {code front rest : List Char} {g halt : Segment} (inside : g.leading ≤ g.stop)
    (closes : code[g.stop]? = some ';') (start : halt.start = g.stop + 1) (order : halt.start ≤ halt.leading)
    (starts : code.drop halt.leading = front ++ rest) (within : halt.leading ≤ code.length) :
    (code.take (halt.leading + front.length)).drop g.leading =
      (code.take g.stop).drop g.leading ++ ';' :: ((code.take halt.leading).drop halt.start ++ front) := by
  have short := (List.getElem?_eq_some_iff.mp closes).1
  have shown : (code.take (halt.leading + front.length)).drop halt.leading = front := by
    rw [List.drop_take, starts, Nat.add_sub_cancel_left, List.take_left]
  have tight : (code.take halt.start).drop g.stop = [';'] := by
    rw [start, takeHere closes]
    exact List.drop_left' (by rw [List.length_take]; omega)
  have all := sliceSplit code inside (show _ ≤ halt.leading + front.length by omega) (by omega)
  have behind := sliceSplit code (show g.stop ≤ halt.start by omega)
    (show _ ≤ halt.leading + front.length by omega) (by omega)
  have last := sliceSplit code order (Nat.le_add_right halt.leading front.length) within
  rw [all, behind, last, tight, shown]
  rfl

theorem frontSome {kind : Kind} {front : List Char} (size : front.length = kind.token.toList.length) :
    front ≠ [] := by
  rintro rfl
  obtain ⟨t, token, spelled⟩ := tokenNotEmpty kind
  rw [spelled] at size
  contradiction

theorem tokenNoSlash (kind : Kind) : kind.token.toList.all (fun t => !sameLetter t '/') = true := by
  cases kind <;> decide +kernel

theorem haltTailStands {kind : Kind} {blanks front rest : List Char} (listed : kind.token.toList ∈ haltTokens)
    (again : ∀ rest, dropToken? kind.token.toList (front ++ rest) = some rest) (blank : allBlank blanks = true)
    (ends : startsInWord rest = false) (before : List Char) :
    hasHaltTail (before ++ ';' :: (blanks ++ (front ++ rest))) = true := by
  apply haltTailBehind
  obtain ⟨c, tail, starts, visible⟩ := @Scan.tokenVisible kind (front ++ rest) (by rw [again]; rfl)
  have shown : dropBlanks (blanks ++ (front ++ rest)) = front ++ rest := by
    rw [dropBlanks, List.dropWhile_append_of_pos (List.all_eq_true.mp blank), starts]
    exact List.dropWhile_cons_of_neg (by simp [visible])
  have here : haltHere (front ++ rest) = true :=
    List.any_eq_true.mpr ⟨_, listed, by rw [again, Option.any_some, ends]; rfl⟩
  rw [hasHaltTail, shown, here]
  rfl

theorem wordRead {mode : Mode} {text more : List Char} {next : Option Char}
    (word : startsInWord (mode.live none text) = true) : startsInWord (mode.live next (text ++ more)) = true := by
  induction text generalizing mode with
  | nil => contradiction
  | cons c text ih =>
    rw [Mode.live] at word
    rw [List.cons_append, Mode.live]
    cases text with
    | nil =>
      split at word
      · rename_i code
        have letter : isWord c = true := word
        rw [stepCode code, if_pos (codeStepWord letter _)]
        exact word
      · contradiction
    | cons d text =>
      rw [List.cons_append, List.head?_cons, Option.some_or] at *
      split at word
      · rename_i code
        rw [if_pos code]
        exact word
      · rename_i other
        rw [if_neg other]
        exact ih word

end DebugSweep.Lexis

namespace DebugSweep.Scan
open Lexis Text

theorem endSemicolon (raw : List Char) (start : Nat) : statementEnd raw start = raw.length ∨
    ∃ last, statementEnd raw start = last + 1 ∧ start ≤ last ∧ raw[last]? = some ';' := by
  unfold statementEnd
  split
  · rename_i offset found
    have here := (codeMember.mp (terminatorInside found)).1
    rw [List.getElem?_drop] at here
    exact .inr ⟨start + offset, rfl, Nat.le_add_right _ _, here⟩
  · exact .inl rfl

theorem contentReaches {raw content tail : List Char} {start stop w p : Nat}
    (shown : (raw.take stop).drop start = content ++ tail) (blank : allBlank tail = true)
    (order : start ≤ w) (first : w ≤ p) (last : p < stop) (semicolon : raw[p]? = some ';') :
    ∃ more later, content = (raw.take w).drop start ++ more ∧ ';' ∈ more ∧ raw.drop w = more ++ later := by
  have inside := (List.getElem?_eq_some_iff.mp semicolon).1
  have parts : (raw.take w).drop start ++ (raw.take stop).drop w = content ++ tail := by
    rw [← shown, ← sliceSplit raw order (by omega) (by omega)]
  have behind : ';' ∈ (raw.take stop).drop w := by
    apply List.mem_of_getElem? (i := p - w)
    rw [List.getElem?_drop, Nat.add_sub_cancel' first, List.getElem?_take, if_pos last, semicolon]
  have visible : ';' ∉ tail := fun member => absurd (List.all_eq_true.mp blank ';' member) (by decide)
  rcases List.append_eq_append_iff.mp parts with ⟨more, same, rest⟩ | ⟨more, same, rest⟩
  · rw [rest] at behind
    refine ⟨more, tail ++ raw.drop stop, same, (List.mem_append.mp behind).resolve_right visible, ?_⟩
    rw [← List.append_assoc, ← rest, ← List.drop_append_of_le_length (by rw [List.length_take]; omega),
      List.take_append_drop]
  · exact absurd (rest ▸ List.mem_append_right more behind) visible

namespace Row

section
variable {origin : Origin} {r : Row} {m : Merged} {f : Finding}

def Whole (r : Row) (m : Merged) : Prop := Unbroken r.code m.segment.leading m.kind.token.toList.length

instance (r : Row) (m : Merged) : Decidable (r.Whole m) := inferInstanceAs (Decidable (Unbroken _ _ _))

/-- Nothing but blanks of the code stands between the statement and its halt, whose token the line shows
in one piece. -/
def HaltsAtOnce (r : Row) (m : Merged) (halt : Segment) : Prop :=
  halt.start = m.segment.stop + 1 ∧ ∀ token ∈ haltTokens, (dropToken? token (dropBlanks halt.text)).isSome →
    Unbroken r.code halt.leading token.length

instance (r : Row) (m : Merged) (halt : Segment) : Decidable (r.HaltsAtOnce m halt) :=
  inferInstanceAs (Decidable (_ ∧ _))

theorem wholeSpells (member : m ∈ r.statements) (whole : r.Whole m) : r.Spells m :=
  tokenShown (mergeMember (memberMerged member)) (statementLies member).2 whole

theorem stopSemicolon {w p : Nat} (early : w < r.stop m) (behind : w ≤ p) (semicolon : r.line[p]? = some ';') :
    ∃ p', w ≤ p' ∧ p' < r.stop m ∧ r.line[p']? = some ';' := by
  rcases endSemicolon r.line ((r.haltPlace? m).getD (r.anchor m)) with whole | ⟨last, stop, -, here⟩
  · have inside := (List.getElem?_eq_some_iff.mp semicolon).1
    exact ⟨p, behind, by rw [Row.stop, whole]; exact inside, semicolon⟩
  · rw [Row.stop, stop] at early ⊢
    exact ⟨last, by omega, by omega, here⟩

theorem contentShows {i : Nat} {front rest : List Char} (member : m ∈ r.statements) (whole : r.Whole m)
    (found : finding? origin r.number r.line r.code m = some f) (starts : r.code.text.drop i = front ++ rest)
    (unbroken : Unbroken r.code i front.length) (plain : ';' ∉ front) (semicolon : ';' ∈ rest)
    (order : r.anchor m ≤ r.code.rawOffset i) (early : r.code.rawOffset i < r.stop m) :
    ∃ more later, f.content.toList = (r.line.take (r.code.rawOffset i + front.length)).drop (r.anchor m) ++ more ∧
      ';' ∈ more ∧ r.line.drop (r.code.rawOffset i + front.length) = more ++ later := by
  have spelled := wholeSpells member whole
  obtain ⟨later, _, tells⟩ := spelledTells spelled found
  obtain ⟨_, _, tail, _, _, blank, shown⟩ := contentStands tells later spelled
  obtain ⟨k, here⟩ := List.mem_iff_getElem?.mp semicolon
  have text : r.code.text[i + (front.length + k)]? = some ';' := by
    rw [← List.getElem?_drop, starts, List.getElem?_append_right (Nat.le_add_right _ _), Nat.add_sub_cancel_left,
      here]
  have inside := (List.getElem?_eq_some_iff.mp text).1
  obtain ⟨c, first, -⟩ := @charAt r i (by omega)
  obtain ⟨d, last, same, closes, -⟩ := charAt inside
  obtain rfl : d = ';' := Option.some.inj (same.symm.trans text)
  have behind : r.code.rawOffset i ≤ r.code.rawOffset (i + (front.length + k) : Nat) := by
    by_contra less
    have := (offsetOrder last first).mpr (by omega)
    omega
  obtain ⟨p, from', till, closed⟩ := stopSemicolon early behind closes
  refine contentReaches shown blank (by omega) ?_ till closed
  -- The token itself has no semicolon.
  by_contra short
  apply plain
  apply List.mem_of_getElem? (i := p - r.code.rawOffset i)
  have line := shownAt starts unbroken
  rw [← List.getElem?_append_left (by omega), ← line, List.getElem?_drop, Nat.add_sub_cancel' from', closed]

theorem contentStarts (member : m ∈ r.statements) (whole : r.Whole m)
    (found : finding? origin r.number r.line r.code m = some f) :
    ∃ front more later, f.content.toList = front ++ more ∧ r.line.drop (r.anchor m) = front ++ (more ++ later) ∧
      ';' ∈ more ∧ (∀ rest, dropToken? m.kind.token.toList (front ++ rest) = some rest) ∧
      startsInWord more = false := by
  obtain ⟨front, rest, starts, size, again, plain, semicolon, ends⟩ := statementStarts (memberMerged member)
  have unbroken : Unbroken r.code m.segment.leading front.length := size ▸ whole
  have early := (spelledTells (wholeSpells member whole) found).1
  obtain ⟨more, later, content, closed, behind⟩ :=
    contentShows member whole found starts unbroken plain semicolon (Nat.le_refl _) early
  have line := shownAt starts unbroken
  have word := behindShown starts (frontSome size) unbroken ends
  refine ⟨front, more, later, ?_, ?_, closed, again, ?_⟩
  · rw [content, Row.anchor, List.drop_take, line, Nat.add_sub_cancel_left, List.take_left]
  · rw [Row.anchor, line, behind]
  · rw [behind] at word
    obtain ⟨c, more, rfl⟩ := List.exists_cons_of_ne_nil (List.ne_nil_of_mem closed)
    exact word

theorem contentLeads (member : m ∈ r.statements) (whole : r.Whole m)
    (found : finding? origin r.number r.line r.code m = some f) :
    m.kind.leads f.content.toList = m.kind.leads (r.line.drop (r.anchor m)) ∧
      (m.kind.follow = .boundary → m.kind.leads f.content.toList = true) ∧
      (dropToken? m.kind.token.toList f.content.toList).isSome := by
  obtain ⟨front, more, later, content, line, closed, again, ends⟩ := contentStarts member whole found
  rw [content, line, leadsBehind again, leadsBehind again, again]
  refine ⟨(followAppend _ closed (by decide) later).symm, fun boundary => ?_, rfl⟩
  rw [boundary, Kind.Follow.holds, ends]
  rfl

section
variable {halt : Segment}

theorem haltMember (member : m ∈ r.statements) (halted : m.halt = some halt) : halt ∈ segments r.code.text := by
  have last := mergeLast (memberMerged member)
  rwa [Merged.last, halted] at last

theorem haltFree (member : m ∈ r.statements) (inside : halt ∈ segments r.code.text)
    (last : halt.leading ≤ halt.stop) (start : halt.start = m.segment.stop + 1) :
    ¬ BehindTag r.code halt.leading := by
  rintro ⟨tag, -⟩
  have lies := segmentsLie _ halt inside
  have within := lies.inside
  have bound : (r.code.text.take halt.leading).getLast?.any bindsToken = true := by
    refine TagBefore.binds (.inr ?_)
    rwa [List.length_take, Nat.min_eq_left (by omega)]
  have order : halt.start ≤ halt.leading := Nat.le_add_right _ _
  by_cases blanks : halt.start = halt.leading
  · have semicolon := segmentEnds (mergeMember (memberMerged member))
    rw [← blanks, start, List.getLast?_take, if_neg (Nat.succ_ne_zero _), Nat.add_sub_cancel, semicolon] at bound
    contradiction
  · rw [blanksUnbound lies (by omega) last] at bound
    contradiction

theorem haltReached (halted : m.halt = some halt)
    (located : findHaltFrom? r.line (r.code.rawOffset halt.leading) = some (r.code.rawOffset halt.leading)) :
    r.code.rawOffset halt.leading < r.stop m := by
  by_cases early : statementEnd r.line (r.anchor m) ≤ r.code.rawOffset halt.leading
  · have place : r.haltPlace? m = some (r.code.rawOffset halt.leading) := by
      rw [haltPlace?, halted, Option.bind_some, Nat.max_eq_right early, located, Option.some_or]
    rw [Row.stop, place]
    exact (statementEndBounds (findHaltFromFound located).2).1
  · unfold Row.stop
    cases place : r.haltPlace? m with
    | none => exact Nat.lt_of_not_le early
    | some place' =>
      have bounds := haltBehind place
      have later : place' < statementEnd r.line place' := (statementEndBounds bounds.2).1
      show r.code.rawOffset halt.leading < statementEnd r.line place'
      omega

theorem tokenAligned {i : Nat} {front rest : List Char} (starts : r.code.text.drop i = front ++ rest)
    (visible : front ≠ []) (unbroken : Unbroken r.code i front.length) (plain : '/' ∉ front) :
    r.Aligned (r.code.rawOffset i + front.length) (i + front.length) := by
  have size := congrArg List.length starts
  rw [List.length_drop, List.length_append] at size
  obtain ⟨n, count⟩ : ∃ n, front.length = n + 1 := Nat.exists_eq_succ_of_ne_zero (by simpa using visible)
  obtain ⟨c, last, text, -⟩ := @charAt r (i + n) (by omega)
  rw [unbroken n (by omega)] at last
  have inside : c ∈ front := by
    apply List.mem_of_getElem? (i := n)
    rw [← List.getElem?_append_left (by omega), ← starts, List.getElem?_drop, text]
  rw [count]
  exact alignedBehind last fun slash => plain (slash ▸ inside)

theorem partWordless {place index : Nat} {more later : List Char} (aligned : r.Aligned place index)
    (behind : r.line.drop place = more ++ later) (ends : startsInWord (r.code.text.drop index) = false) :
    startsInWord (Mode.code.live none more) = false := by
  rw [← Bool.not_eq_true]
  intro word
  have read := @wordRead _ _ later none word
  rw [← behind, aligned.behind.1, ends] at read
  contradiction

theorem haltReads (outside : r.state.inString = false ∨ r.state.delimiter = none) (member : m ∈ r.statements)
    (whole : r.Whole m) (found : finding? origin r.number r.line r.code m = some f)
    (halted : m.halt = some halt) (atOnce : r.HaltsAtOnce m halt) :
    hasHaltTail (codeOf f.content.toList {}).text = true := by
  obtain ⟨start, solid⟩ := atOnce
  have inside := haltMember member halted
  have lies := segmentsLie _ halt inside
  have within := lies.inside
  have only := mergeHalts (memberMerged member) halted
  obtain ⟨token, listed, c, rest, dropped, ends⟩ := haltOnlyStarts only
  obtain ⟨kind, -, rfl⟩ := haltKind token listed
  obtain ⟨front, text, starts, size, again, plain, semicolon⟩ := segmentStarts inside dropped (tokenPlain kind)
  have visible := frontSome size
  obtain ⟨d, tail, parts⟩ := List.exists_cons_of_ne_nil visible
  have unbroken : Unbroken r.code halt.leading front.length := size ▸ solid _ listed (by rw [dropped]; rfl)
  have order := visibleInside lies (text.trans (by rw [parts]; rfl))
  have bounds := leadingInside (statementLies member).1 (statementLies member).2
  have located := haltLocated outside inside order.2 only (haltFree member inside order.2 start) solid
  obtain ⟨a, first⟩ := anchorChar member
  obtain ⟨b, second, -⟩ := @charAt r halt.leading (by omega)
  have apart : r.anchor m < r.code.rawOffset halt.leading := (offsetOrder first second).mp (by omega)
  obtain ⟨more, later, content, -, behind⟩ := contentShows member whole found starts unbroken plain
    (List.mem_append_left _ semicolon) (Nat.le_of_lt apart) (haltReached halted located)
  have aligned := tokenAligned starts visible unbroken (frontFree again (tokenNoSlash kind))
  obtain ⟨leads, live⟩ := (anchorAligned member).between aligned (by omega)
  have word : startsInWord (Mode.code.live none more) = false := by
    apply partWordless aligned behind
    rw [← List.drop_drop, starts, List.drop_left]
    exact ends
  have closes := segmentEnds (mergeMember (memberMerged member))
  -- The content is read as the code up to the end of the halt's token, and as what is read behind it.
  have fresh : LineState.mode {} = .code := rfl
  rw [codeText, fresh, content, (leadsToCodeAppend leads none more).1, live,
    codeAcross bounds.2 closes start order.1 starts (by omega), List.append_assoc, List.cons_append, List.append_assoc]
  exact haltTailStands listed again (blanksLeading lies) word _

end

theorem ratedByContent (outside : r.state.inString = false ∨ r.state.delimiter = none) (member : m ∈ r.statements)
    (whole : r.Whole m) (found : finding? origin r.number r.line r.code m = some f) :
    f.kind = m.kind ∧
    (kindOf? f.content.toList = some f.kind ↔ f.kind.leads (r.line.drop (r.anchor m)) = true) ∧
    (f.kind.follow = .boundary → kindOf? f.content.toList = some f.kind) ∧
    (f.severity = .error ∨ f.severity =
      if f.kind.leads (r.line.drop (r.anchor m)) then f.kind.severity else .info) ∧
    ∀ halt ∈ m.halt, r.HaltsAtOnce m halt → f.severity = .error := by
  have kind := (spelledTells (wholeSpells member whole) found).2.2.kind
  obtain ⟨alike, boundary, spelled⟩ := contentLeads member whole found
  rw [← kind] at alike boundary spelled
  have severity := findingSeverity found
  refine ⟨kind, by rw [kindOfIff, alike], fun ends => kindOfIff.mpr (boundary ends), ?_, fun halt halted atOnce => ?_⟩
  · cases halts : hasHaltTail (codeOf f.content.toList {}).text with
    | true => exact .inl (by rw [severity, severityOf, if_pos halts])
    | false => exact .inr (by rw [severity, severitySpelled spelled halts, alike])
  · rw [severity, severityOf, if_pos (haltReads outside member whole found halted atOnce)]

end

def endedDump : Merged :=
  { segment := ⟨" print_r ($x);".toList, 0, 13⟩, kind := .printR, halt := some ⟨"  EXIT(1);".toList, 14, 23⟩ }

theorem endedDumpRated :
    let r : Row := ⟨3, "*/ print_r ($x); /* now */ EXIT(1); # later".toList, { inBlockComment := true }⟩
    ∃ f, finding? ⟨"/w/a.php", "a.php"⟩ r.number r.line r.code endedDump = some f ∧
      kindOf? f.content.toList = some .printR ∧ f.severity = .error := by
  intro r
  have member : endedDump ∈ r.statements := by decide +kernel
  have leads : Kind.printR.leads (r.line.drop (r.anchor endedDump)) = true := by decide +kernel
  have atOnce : ∀ halt ∈ endedDump.halt, r.HaltsAtOnce endedDump halt := by decide +kernel
  have some : (finding? ⟨"/w/a.php", "a.php"⟩ r.number r.line r.code endedDump).isSome := by decide +kernel
  obtain ⟨f, found⟩ := Option.isSome_iff_exists.mp some
  obtain ⟨kind, named, -, -, halts⟩ := ratedByContent (.inl rfl) member (by decide +kernel) found
  rw [kind] at named
  exact ⟨f, found, named.mpr leads, halts _ rfl (atOnce _ rfl)⟩

def guardedDump : Merged :=
  { segment := ⟨"var_dump($x);".toList, 0, 12⟩, kind := .varDump, halt := some ⟨" exit;".toList, 26, 31⟩ }

-- A comment behind the token hides the parenthesis from the content, and a brace hides the halt.
theorem hiddenFromContent :
    (∃ f ∈ Row.findings ⟨"/w/a.php", "a.php"⟩ ⟨1, "dd/**/(1);".toList, {}⟩,
      kindOf? f.content.toList ≠ some f.kind ∧ f.severity ≠ .error ∧ f.severity ≠ f.kind.severity) ∧
    let r : Row := ⟨1, "var_dump($x); if ($stop) \x7b exit; \x7d".toList, {}⟩
    guardedDump ∈ r.statements ∧ guardedDump.halt ≠ none ∧
      ∃ f, finding? ⟨"/w/a.php", "a.php"⟩ r.number r.line r.code guardedDump = some f ∧ f.severity ≠ .error := by
  refine ⟨by decide +kernel, ?_⟩
  intro r
  have rated : (finding? ⟨"/w/a.php", "a.php"⟩ r.number r.line r.code guardedDump).map Finding.severity =
      some .info := by decide +kernel
  obtain ⟨f, found, info⟩ := Option.map_eq_some_iff.mp rated
  exact ⟨by decide +kernel, by decide, f, found, by simp [info]⟩

end Row
end DebugSweep.Scan
