import DebugSweep.Edit.Expression
import DebugSweep.Proofs.Nesting
import Mathlib.Data.List.DropRight

/-! Brackets of expressions. Expressions are accepted by a walk that counts one kind of brackets at a time and
knows no comments. Main statement: read from code, an accepted expression without comments ends in code and
closes no bracket before it. -/
namespace DebugSweep.Edit
open Text Lexis

structure Contained (text : List Char) : Prop where
  leads : Mode.code.LeadsToCode text
  within : ∀ before closers, (opened before closers (Mode.code.live none text)).isSome

theorem Contained.append {left right : List Char} (first : Contained left) (second : Contained right) :
    Contained (left ++ right) := by
  have parts := fun next => leadsToCodeAppend first.leads next right
  refine ⟨?_, ?_⟩
  · intro next
    rw [(parts next).2]
    exact second.leads next
  · intro before closers
    rw [(parts none).1, openedAppend]
    obtain ⟨between, opens⟩ := Option.isSome_iff_exists.mp (first.within before closers)
    rw [opens]
    exact second.within _ _

/-- Characters that are code whatever follows them and that close no parenthesis. -/
def unmarked (c : Char) : Bool := !(['\'', '"', '#', '/', ')'].contains c)

theorem unmarkedStep {c : Char} (plain : unmarked c = true) (next : Option Char) :
    Mode.step .code c next = (.code, .code) := by
  obtain ⟨single, double, hash, slash, -⟩ : c ≠ '\'' ∧ c ≠ '"' ∧ c ≠ '#' ∧ c ≠ '/' ∧ c ≠ ')' := by
    simpa [unmarked] using plain
  simp [Mode.step, isQuote, single, double, hash, slash]

theorem unmarkedRead {text : List Char} (plain : text.all unmarked = true) (next : Option Char) :
    Mode.code.after next text = .code ∧ Mode.code.live next text = text := by
  induction text with
  | nil => exact ⟨rfl, rfl⟩
  | cons c text ih =>
    rw [List.all_cons, Bool.and_eq_true] at plain
    obtain ⟨after, live⟩ := ih plain.2
    rw [Mode.after, Mode.live, unmarkedStep plain.1]
    exact ⟨after, by rw [if_pos rfl, live]⟩

theorem unmarkedContained {text : List Char} (plain : text.all unmarked = true) : Contained text := by
  refine ⟨fun next => (unmarkedRead plain next).1, ?_⟩
  rw [(unmarkedRead plain none).2]
  apply openedSome
  intro member
  exact absurd (List.all_eq_true.mp plain _ member) (by decide)

theorem blanksUnmarked {text : List Char} (blank : allBlank text = true) : text.all unmarked = true := by
  refine List.all_eq_true.mpr ?_
  intro c member
  have here := List.all_eq_true.mp blank c member
  rw [unmarked, blankUnlisted here rfl]
  rfl

theorem blanksContained {text : List Char} (blank : allBlank text = true) : Contained text :=
  unmarkedContained (blanksUnmarked blank)

def Commentless (mode : Mode) (text : List Char) : Prop :=
  ∀ cls ∈ mode.classes none text, cls ≠ .lineComment ∧ cls ≠ .blockComment

instance (mode : Mode) (text : List Char) : Decidable (Commentless mode text) :=
  inferInstanceAs (Decidable (∀ cls ∈ mode.classes none text, _))

theorem Commentless.behind {left right : List Char} (plain : Commentless .code (left ++ right))
    (leads : Mode.code.LeadsToCode left) : Commentless .code right := by
  intro cls member
  apply plain cls
  rw [classesAppend, leads]
  exact List.mem_append_right _ member

theorem Commentless.before {mode : Mode} {left right : List Char} (plain : Commentless mode (left ++ right))
    (blank : allBlank right = true) : Commentless mode left := by
  obtain ⟨slash, star⟩ := blankHead blank
  intro cls member
  apply plain cls
  rw [classesAppend, classesPlain _ _ slash star]
  exact List.mem_append_left _ member

theorem Commentless.cons {mode : Mode} {c : Char} {text : List Char} (plain : Commentless mode (c :: text)) :
    ((mode.step c text.head?).1 ≠ .lineComment ∧ (mode.step c text.head?).1 ≠ .blockComment) ∧
      Commentless (mode.step c text.head?).2 text := by
  have parts := plain
  simp only [Commentless, Mode.classes, Option.or_none, List.forall_mem_cons] at parts
  exact parts

def Balance.Reads (b : Balance) (mode : Mode) : Prop :=
  match b.quote with
  | none => mode = .code
  | some q => isQuote q = true ∧ mode = .literal (some q) (b.slashes % 2 == 1)

section
variable {opener closer : Char} {b b' : Balance} {mode : Mode} {c : Char} {next : Option Char} {ends : Bool}

def Balance.slashesBehind (b : Balance) (c : Char) : Nat := if c == '\\' then b.slashes + 1 else 0

inductive Balance.Stepped (opener closer : Char) (b : Balance) (c : Char) : Bool → Balance → Prop where
  | quoted {q : Char} (inside : b.quote = some q) : Stepped opener closer b c false
      { b with quote := if c == q && b.slashes % 2 == 0 then none else some q, slashes := b.slashesBehind c }
  | quotes (outside : b.quote = none) (mark : isQuote c = true) : Stepped opener closer b c false
      { b with quote := some c, slashes := b.slashesBehind c }
  | opens (outside : b.quote = none) (plain : isQuote c = false) (here : c = opener) :
      Stepped opener closer b c false { b with depth := b.depth + 1, slashes := b.slashesBehind c }
  | ends (outside : b.quote = none) (plain : isQuote c = false) (here : c = closer) (outermost : b.depth = 1) :
      Stepped opener closer b c true { b with depth := 0, slashes := b.slashesBehind c }
  | closes (outside : b.quote = none) (plain : isQuote c = false) (here : c = closer) (deep : 1 < b.depth) :
      Stepped opener closer b c false { b with depth := b.depth - 1, slashes := b.slashesBehind c }
  | passes (outside : b.quote = none) (plain : isQuote c = false) (opening : c ≠ opener) (closing : c ≠ closer) :
      Stepped opener closer b c false { b with slashes := b.slashesBehind c }

theorem Balance.stepped (steps : b.step opener closer c = some (ends, b')) :
    b.Stepped opener closer c ends b' := by
  unfold Balance.step at steps
  dsimp only at steps
  split at steps
  · rename_i q inside
    cases steps
    exact .quoted inside
  · rename_i outside
    split at steps
    · rename_i mark
      cases steps
      exact .quotes outside mark
    · rename_i plain
      have plain : isQuote c = false := Bool.eq_false_iff.mpr plain
      split at steps
      · rename_i here
        cases steps
        exact .opens outside plain (beq_iff_eq.mp here)
      · rename_i opening
        split at steps
        · rename_i here
          split at steps
          · rename_i outermost
            cases steps
            exact .ends outside plain (beq_iff_eq.mp here) (beq_iff_eq.mp outermost)
          · rename_i deeper
            split at steps
            · contradiction
            · rename_i shallow
              cases steps
              have other : b.depth ≠ 1 := fun same => deeper (beq_iff_eq.mpr same)
              exact .closes outside plain (beq_iff_eq.mp here) (by omega)
        · rename_i closing
          cases steps
          exact .passes outside plain (fun same => opening (beq_iff_eq.mpr same))
            (fun same => closing (beq_iff_eq.mpr same))

theorem codePlain {c : Char} {next : Option Char} (unquoted : isQuote c = false)
    (plain : (Mode.step .code c next).1 ≠ .lineComment ∧ (Mode.step .code c next).1 ≠ .blockComment) :
    Mode.step .code c next = (.code, .code) := by
  simp only [Mode.step, unquoted, Bool.false_eq_true, if_false] at plain ⊢
  split
  · rename_i comment
    rw [if_pos comment] at plain
    exact absurd rfl plain.1
  · rename_i other
    rw [if_neg other] at plain
    split
    · rename_i comment
      rw [if_pos comment] at plain
      exact absurd rfl plain.2
    · rfl

theorem Balance.Reads.live (reads : b.Reads mode) (outside : b.quote = none) (unquoted : isQuote c = false)
    (plain : (mode.step c next).1 ≠ .lineComment ∧ (mode.step c next).1 ≠ .blockComment) :
    (mode.step c next).1 = .code := by
  obtain rfl : mode = .code := by simpa [Balance.Reads, outside] using reads
  rw [codePlain unquoted plain]

-- Both pass over escaped characters: one counts backslashes, the other remembers the last.
theorem Balance.Reads.step (reads : b.Reads mode)
    (plain : (mode.step c next).1 ≠ .lineComment ∧ (mode.step c next).1 ≠ .blockComment)
    (steps : b.Stepped opener closer c ends b') : b'.Reads (mode.step c next).2 := by
  cases steps with
  | @quoted q inside =>
    obtain ⟨mark, rfl⟩ : isQuote q = true ∧ mode = .literal (some q) (b.slashes % 2 == 1) := by
      simpa [Balance.Reads, inside] using reads
    have other : '\\' ≠ q := by
      rintro rfl
      contradiction
    rcases Nat.mod_two_eq_zero_or_one b.slashes with even | odd
    · by_cases escape : c = '\\'
      · subst escape
        have next : (b.slashes + 1) % 2 = 1 := by omega
        simp [Balance.Reads, Balance.slashesBehind, Mode.step, even, next, other, mark]
      · by_cases same : c = q
        · simp [Balance.Reads, Mode.step, even, same, other.symm]
        · simp [Balance.Reads, Balance.slashesBehind, Mode.step, even, escape, same, Ne.symm same, mark]
    · have next : (b.slashes + 1) % 2 = 0 := by omega
      by_cases escape : c = '\\'
      · simp [Balance.Reads, Balance.slashesBehind, Mode.step, odd, next, escape, mark]
      · simp [Balance.Reads, Balance.slashesBehind, Mode.step, odd, escape, mark]
  | quotes outside mark =>
    obtain rfl : mode = .code := by simpa [Balance.Reads, outside] using reads
    have other : (c == '\\') = false := by
      rw [beq_eq_false_iff_ne]
      rintro rfl
      contradiction
    simp [Balance.Reads, Balance.slashesBehind, Mode.step, mark, other]
  | opens outside unquoted | ends outside unquoted | closes outside unquoted | passes outside unquoted =>
    obtain rfl : mode = .code := by simpa [Balance.Reads, outside] using reads
    rw [codePlain unquoted plain]
    simp [Balance.Reads, outside]

def Paired (opener closer : Char) : Prop := (opener = '(' ∧ closer = ')') ∨ (opener = '[' ∧ closer = ']')

theorem turnedCount {closers : List Char} (pair : Paired opener closer) (held : 0 < closers.count closer)
    (before : List Char) (c : Char) :
    ∃ closers', turned before closers c = some closers' ∧
      closers.count closer + (if c = opener then 1 else 0) ≤
        closers'.count closer + (if c = closer then 1 else 0) := by
  cases closers with
  | nil => simp at held
  | cons top outer =>
    unfold turned
    rcases pair with ⟨rfl, rfl⟩ | ⟨rfl, rfl⟩
    all_goals
      simp only [List.count_cons]
      repeat' split
      all_goals exact ⟨_, rfl, by simp_all [List.count_cons]⟩

-- While the walk is inside a pair, the scanner holds at least as many closers as the walk is deep.
theorem Balance.Stepped.counted (steps : b.Stepped opener closer c false b') (pair : Paired opener closer)
    (reads : b.Reads mode) (deep : 1 ≤ b.depth)
    (plain : (mode.step c next).1 ≠ .lineComment ∧ (mode.step c next).1 ≠ .blockComment) :
    1 ≤ b'.depth ∧
      (((mode.step c next).1 ≠ .code ∧ b'.depth = b.depth) ∨
        ((mode.step c next).1 = .code ∧ ∀ before closers, b.depth ≤ (closers.count closer : Nat) →
          ∃ closers', turned before closers c = some closers' ∧ b'.depth ≤ (closers'.count closer : Nat))) := by
  have live (outside : b.quote = none) (unquoted : isQuote c = false) := reads.live outside unquoted plain
  have different : opener ≠ closer := by rcases pair with ⟨rfl, rfl⟩ | ⟨rfl, rfl⟩ <;> decide
  cases steps with
  | @quoted q inside =>
    obtain ⟨-, rfl⟩ : isQuote q = true ∧ mode = .literal (some q) (b.slashes % 2 == 1) := by
      simpa [Balance.Reads, inside] using reads
    exact ⟨deep, .inl ⟨fun code => absurd (stepCode code) (by simp), rfl⟩⟩
  | quotes outside mark =>
    obtain rfl : mode = .code := by simpa [Balance.Reads, outside] using reads
    exact ⟨deep, .inl ⟨by simp [Mode.step, mark], rfl⟩⟩
  | opens outside unquoted here =>
    refine ⟨by dsimp only; omega, .inr ⟨live outside unquoted, ?_⟩⟩
    intro before closers held
    obtain ⟨closers', turned, count⟩ := turnedCount pair (show 0 < closers.count closer by omega) before c
    rw [if_pos here, if_neg (here ▸ different)] at count
    exact ⟨closers', turned, by dsimp only; omega⟩
  | closes outside unquoted here deeper =>
    refine ⟨by dsimp only; omega, .inr ⟨live outside unquoted, ?_⟩⟩
    intro before closers held
    obtain ⟨closers', turned, count⟩ := turnedCount pair (show 0 < closers.count closer by omega) before c
    rw [if_pos here, if_neg (here ▸ different.symm)] at count
    exact ⟨closers', turned, by dsimp only; omega⟩
  | passes outside unquoted opening closing =>
    refine ⟨deep, .inr ⟨live outside unquoted, ?_⟩⟩
    intro before closers held
    obtain ⟨closers', turned, count⟩ := turnedCount pair (show 0 < closers.count closer by omega) before c
    rw [if_neg opening, if_neg closing] at count
    exact ⟨closers', turned, by dsimp only; omega⟩

-- The induction is on the text that the walk still has before it.
theorem Balance.runContained {text : List Char} {offset place : Int} (pair : Paired opener closer)
    (reads : b.Reads mode) (deep : 1 ≤ b.depth) (plain : Commentless mode text)
    (runs : b.run opener closer offset text = some place) :
    ∃ group rest, text = group ++ rest ∧ group ≠ [] ∧ place + 1 = offset + group.length ∧
      mode.LeadsToCode group ∧ ∀ before closers, b.depth ≤ (closers.count closer : Nat) →
        (opened before closers (mode.live none group)).isSome := by
  induction text generalizing b mode offset with
  | nil => simp [Balance.run] at runs
  | cons c text ih =>
    obtain ⟨here, later⟩ := plain.cons
    rw [Balance.run] at runs
    split at runs
    · contradiction
    · rename_i b' steps
      cases runs
      cases Balance.stepped steps with
      | ends outside unquoted same outermost =>
        obtain rfl : mode = .code := by simpa [Balance.Reads, outside] using reads
        subst same
        have step : ∀ next, Mode.step .code c next = (.code, .code) := by
          rcases pair with ⟨-, rfl⟩ | ⟨-, rfl⟩ <;> exact fun _ => rfl
        refine ⟨[c], text, rfl, by simp, by simp, fun next => by simp [Mode.after, step], ?_⟩
        intro before closers held
        have some : 0 < closers.count c := by omega
        obtain ⟨closers', turns, -⟩ := turnedCount pair some before c
        simp [liveOne, step, opened, turns]
    · rename_i b' steps
      have stepped := Balance.stepped steps
      obtain ⟨deep', counts⟩ := stepped.counted pair reads deep here
      obtain ⟨group, rest, split, some, size, leads, within⟩ := ih (reads.step here stepped) deep' later runs
      obtain ⟨d, group', rfl⟩ := List.exists_cons_of_ne_nil some
      have next : text.head? = .some d := by rw [split]; rfl
      rw [next] at leads within counts
      refine ⟨c :: d :: group', rest, by rw [split]; rfl, by simp, by simp at size ⊢; omega, leads, ?_⟩
      intro before closers held
      have first : mode.live none (c :: d :: group') = if (mode.step c (.some d)).1 = .code then
          c :: (mode.step c (.some d)).2.live none (d :: group')
        else (mode.step c (.some d)).2.live none (d :: group') := rfl
      rw [first]
      rcases counts with ⟨other, same⟩ | ⟨code, keeps⟩
      · rw [if_neg other]
        exact within before closers (by omega)
      · obtain ⟨closers', turns, held'⟩ := keeps before closers held
        rw [if_pos code, opened, turns]
        exact within (c :: before) closers' held'

theorem groupContained {text rest : List Char} (pair : Paired opener closer)
    (starts : text.head? = some opener) (plain : Commentless .code text)
    (dropped : dropGroup? opener closer text = some rest) :
    ∃ group, text = group ++ rest ∧ Contained group := by
  obtain ⟨tail, rfl⟩ := List.head?_eq_some_iff.mp starts
  obtain ⟨offset, closing, last⟩ := Option.map_eq_some_iff.mp dropped
  obtain ⟨place, runs, rfl⟩ := Option.map_eq_some_iff.mp closing
  have mark : unmarked opener = true := by rcases pair with ⟨rfl, -⟩ | ⟨rfl, -⟩ <;> rfl
  have opens : Balance.step opener closer {} opener = some (false, { depth := 1 }) := by
    rcases pair with ⟨rfl, rfl⟩ | ⟨rfl, rfl⟩ <;> rfl
  have turns : ∀ before closers, turned before closers opener = some (closer :: closers) := by
    rcases pair with ⟨rfl, rfl⟩ | ⟨rfl, rfl⟩ <;> exact fun _ _ => rfl
  have later := plain.cons.2
  rw [unmarkedStep mark] at later
  simp only [Balance.run, opens] at runs
  have reads : Balance.Reads { depth := 1 } .code := rfl
  obtain ⟨group, rest', parts, -, size, leads, within⟩ :=
    Balance.runContained pair reads (by decide) later runs
  subst parts
  refine ⟨opener :: group, ?_, ?_, ?_⟩
  · have count : place.toNat + 1 = (opener :: group).length := by rw [List.length_cons]; omega
    rw [← last, count, ← List.cons_append, List.drop_left]
  · intro next
    rw [Mode.after, unmarkedStep mark]
    exact leads next
  · intro before closers
    rw [Mode.live, unmarkedStep mark, if_pos rfl, opened, turns]
    exact within _ _ (by rw [List.count_cons_self]; dsimp only; omega)

end

theorem nameUnmarked {c : Char} (name : isNameChar c = true) : unmarked c = true := by
  rw [unmarked, Bool.not_eq_true', ← Bool.not_eq_true, List.contains_iff_mem]
  intro listed
  have others : ['\'', '"', '#', '/', ')'].all (fun d => !isNameChar d) = true := rfl
  have other := List.all_eq_true.mp others c listed
  rw [name] at other
  contradiction

theorem nameContained {text rest : List Char} (dropped : dropName? text = some rest) :
    ∃ name, text = name ++ rest ∧ Contained name := by
  cases text with
  | nil => simp [dropName?] at dropped
  | cons c tail =>
    simp only [dropName?, Option.ite_none_right_eq_some, Option.some.injEq] at dropped
    obtain ⟨start, rfl⟩ := dropped
    refine ⟨c :: tail.takeWhile isNameChar, by simp, unmarkedContained ?_⟩
    rw [List.all_cons, Bool.and_eq_true, List.all_eq_true]
    refine ⟨nameUnmarked (by simp [isNameChar, start]), ?_⟩
    intro d member
    exact nameUnmarked (List.mem_takeWhile_imp member)

theorem blanksParted (text : List Char) : ∃ front, text = front ++ dropBlanks text ∧ allBlank front = true :=
  ⟨text.takeWhile isBlank, List.takeWhile_append_dropWhile.symm,
    List.all_eq_true.mpr fun _ member => List.mem_takeWhile_imp member⟩

theorem blanksBefore (text : List Char) : ∃ front, text = front ++ dropBlanks text ∧ Contained front := by
  obtain ⟨front, parts, blank⟩ := blanksParted text
  exact ⟨front, parts, blanksContained blank⟩

theorem stripSplit (text : List Char) :
    ∃ front back, text = front ++ (strip text ++ back) ∧ allBlank front = true ∧ allBlank back = true := by
  refine ⟨text.takeWhile isBlank, (dropBlanks text).rtakeWhile isBlank, ?_, ?_, ?_⟩
  · have inner : strip text ++ (dropBlanks text).rtakeWhile isBlank = dropBlanks text :=
      List.rdropWhile_append_rtakeWhile
    rw [inner]
    exact List.takeWhile_append_dropWhile.symm
  · exact List.all_eq_true.mpr fun _ member => List.mem_takeWhile_imp member
  · exact List.all_eq_true.mpr fun _ member => List.mem_rtakeWhile_imp member

theorem stripContained {text : List Char} (inner : Contained (strip text)) : Contained text := by
  obtain ⟨front, back, parts, blank, blank'⟩ := stripSplit text
  rw [parts]
  exact (blanksContained blank).append (inner.append (blanksContained blank'))

theorem accessorContained {text rest : List Char} (plain : Commentless .code text)
    (dropped : dropAccessor? text = some rest) : ∃ part, text = part ++ rest ∧ Contained part := by
  unfold dropAccessor? at dropped
  split at dropped
  · exact groupContained (.inr ⟨rfl, rfl⟩) rfl plain dropped
  · rename_i member
    obtain ⟨behind, named, last⟩ := Option.bind_eq_some_iff.mp dropped
    obtain ⟨front, before, first⟩ := blanksBefore member
    obtain ⟨name, whole, second⟩ := nameContained named
    obtain ⟨middle, between, third⟩ := blanksBefore behind
    have arrow : Contained ['-', '>'] := unmarkedContained rfl
    have parts : '-' :: '>' :: member = ['-', '>'] ++ front ++ name ++ middle ++ dropBlanks behind := by
      rw [List.append_assoc, List.append_assoc, List.append_assoc, ← between, ← whole, ← before]
      rfl
    have inner := ((arrow.append first).append second).append third
    dsimp only at last
    split at last
    · rename_i after starts
      rw [starts] at parts last
      rw [parts] at plain ⊢
      obtain ⟨group, split, fourth⟩ := groupContained (.inl ⟨rfl, rfl⟩) rfl (plain.behind inner.leads) last
      exact ⟨_, by rw [split, ← List.append_assoc], inner.append fourth⟩
    · cases last
      exact ⟨_, parts, inner⟩
  · contradiction

theorem accessorsContained {fuel : Nat} {text : List Char} (plain : Commentless .code text)
    (only : accessorsOnly fuel text = true) : Contained text := by
  induction fuel generalizing text with
  | zero => exact blanksContained only
  | succ fuel ih =>
    obtain ⟨front, before, first⟩ := blanksBefore text
    rw [accessorsOnly] at only
    split at only
    · rename_i none
      rw [before, none]
      exact first.append (unmarkedContained rfl)
    · rename_i c tail starts
      split at only
      · rename_i rest dropped
        rw [before, starts] at plain ⊢
        have inner := plain.behind first.leads
        obtain ⟨part, split, second⟩ := accessorContained inner dropped
        rw [split] at inner ⊢
        exact first.append (second.append (ih (inner.behind second.leads) only))
      · contradiction

theorem qualifiersContained {fuel : Nat} {text : List Char} (only : qualifiersOnly fuel text = true) :
    Contained text := by
  induction fuel generalizing text with
  | zero =>
    rw [List.isEmpty_iff.mp only]
    exact unmarkedContained rfl
  | succ fuel ih =>
    unfold qualifiersOnly at only
    split at only
    · exact unmarkedContained rfl
    · split at only
      · rename_i rest rest' dropped
        obtain ⟨name, rfl, second⟩ := nameContained dropped
        have colons : Contained [':', ':'] := unmarkedContained rfl
        exact colons.append (second.append (ih only))
      · contradiction
    · contradiction

theorem calleeContained {text : List Char} (callee : isCallee text = true) : Contained text := by
  unfold isCallee at callee
  split at callee
  · rename_i rest dropped
    obtain ⟨name, rfl, first⟩ := nameContained dropped
    exact first.append (qualifiersContained callee)
  · contradiction

theorem variableContained {text : List Char} (plain : Commentless .code (strip text))
    (fits : isVariable text = true) : Contained text := by
  apply stripContained
  unfold isVariable at fits
  split at fits
  · rename_i rest starts
    split at fits
    · rename_i rest' dropped
      obtain ⟨name, rfl, second⟩ := nameContained dropped
      have dollar : Contained ['$'] := unmarkedContained rfl
      have inner : Contained ('$' :: name) := dollar.append second
      rw [starts, ← List.cons_append] at plain ⊢
      exact inner.append (accessorsContained (plain.behind inner.leads) fits)
    · contradiction
  · contradiction

theorem callSplit {source callee tail : List Char} (split : splitCall? source = some (callee, tail)) :
    ∃ head, source = head ++ tail ∧ callee = strip head ∧ tail.head? = some '(' := by
  simp only [splitCall?, Option.ite_none_left_eq_some, Option.some.injEq, Prod.mk.injEq] at split
  obtain ⟨some, rfl, rfl⟩ := split
  have parts := List.takeWhile_append_dropWhile (p := (· != '(')) (l := source)
  have rest : source.drop (source.takeWhile (· != '(')).length = source.dropWhile (· != '(') :=
    (congrArg (List.drop _) parts).symm.trans List.drop_left
  rw [rest] at some ⊢
  refine ⟨_, parts.symm, rfl, ?_⟩
  have other := List.head?_dropWhile_not (· != '(') source
  cases behind : source.dropWhile (· != '(') with
  | nil => simp [behind] at some
  | cons c more => simpa [behind] using other

theorem callContained {text : List Char} (plain : Commentless .code (strip text))
    (fits : isCall text = true) : Contained text := by
  apply stripContained
  unfold isCall at fits
  split at fits
  · contradiction
  · rename_i callee tail split
    obtain ⟨head, parts, rfl, starts⟩ := callSplit split
    rw [Bool.and_eq_true] at fits
    obtain ⟨named, behind⟩ := fits
    have first : Contained head := stripContained (calleeContained named)
    rw [parts] at plain ⊢
    have inner := plain.behind first.leads
    split at behind
    · rename_i rest dropped
      obtain ⟨group, rfl, second⟩ := groupContained (.inl ⟨rfl, rfl⟩) starts inner dropped
      exact first.append (second.append (accessorsContained (inner.behind second.leads) behind))
    · contradiction

theorem insertableContained {text : List Char} (fits : isInsertable text = true)
    (plain : Commentless .code text) : Contained text := by
  have inner : Commentless .code (strip text) := by
    obtain ⟨front, back, parts, blank, blank'⟩ := stripSplit text
    rw [parts] at plain
    exact (plain.behind (blanksContained blank).leads).before blank'
  rcases Bool.or_eq_true_iff.mp fits with named | called
  · exact variableContained inner named
  · exact callContained inner called

end DebugSweep.Edit
