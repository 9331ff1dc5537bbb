import DebugSweep.Proofs.Groups

/-! What the expressions are that a dump can show. Names, accessors, callees and groups are described by themselves,
without the reader. Main statement: variables and calls are exactly the texts of this grammar. -/
namespace DebugSweep.Edit
open Text Lexis

def Digit (c : Char) : Prop := '0' ≤ c ∧ c ≤ '9'

instance (c : Char) : Decidable (Digit c) := inferInstanceAs (Decidable (_ ∧ _))

def NameChar (c : Char) : Prop :=
  ('A' ≤ c ∧ c ≤ 'Z') ∨ ('a' ≤ c ∧ c ≤ 'z') ∨ Digit c ∨ c = '_' ∨ (0x80 ≤ c.toNat ∧ c.toNat ≤ 0xffff)

instance (c : Char) : Decidable (NameChar c) := inferInstanceAs (Decidable (_ ∨ _))

/-- A name that goes as far as it can. -/
structure Name (name rest : List Char) : Prop where
  starts : ∃ first ∈ name.head?, ¬ Digit first
  within : ∀ c ∈ name, NameChar c
  ends : ∀ c ∈ rest.head?, ¬ NameChar c

inductive Accessor : List Char → List Char → Prop where
  | index {group rest : List Char} (inside : Group '[' ']' group) : Accessor ('[' :: (group ++ ']' :: rest)) rest
  | member {blanks name rest : List Char} (blank : allBlank blanks = true) (named : Name name rest) :
      Accessor ('-' :: '>' :: (blanks ++ (name ++ rest))) rest
  | method {blanks name between group rest : List Char} (blank : allBlank blanks = true)
      (named : Name name (between ++ '(' :: (group ++ ')' :: rest))) (blank' : allBlank between = true)
      (inside : Group '(' ')' group) :
      Accessor ('-' :: '>' :: (blanks ++ (name ++ (between ++ '(' :: (group ++ ')' :: rest))))) rest

/-- Accessors with blanks before them and behind them. -/
inductive Accessors : List Char → Prop where
  | done {blanks : List Char} (blank : allBlank blanks = true) : Accessors blanks
  | next {blanks text rest : List Char} (blank : allBlank blanks = true) (first : Accessor text rest)
      (more : Accessors rest) : Accessors (blanks ++ text)

inductive Callee : List Char → List Char → Prop where
  | one {name rest : List Char} (named : Name name rest) : Callee (name ++ rest) rest
  | qualified {name text rest : List Char} (named : Name name (':' :: ':' :: text)) (more : Callee text rest) :
      Callee (name ++ ':' :: ':' :: text) rest

def Variable (text : List Char) : Prop :=
  ∃ name rest, text = '$' :: (name ++ rest) ∧ Name name rest ∧ Accessors rest

def Call (text : List Char) : Prop :=
  ∃ blanks group rest, Callee text (blanks ++ '(' :: (group ++ ')' :: rest)) ∧ allBlank blanks = true ∧
    Group '(' ')' group ∧ Accessors rest

def PlainBlanks (text : List Char) : Prop := ∀ c ∈ text, isBlank c = true → c.toNat < 0x80

instance (text : List Char) : Decidable (PlainBlanks text) :=
  List.decidableBAll (fun c => isBlank c = true → c.toNat < 0x80) text

theorem charLe (c d : Char) : c ≤ d ↔ c.toNat ≤ d.toNat := Iff.rfl

theorem digitIff (c : Char) : c.isDigit = true ↔ Digit c := Char.isDigit_iff_toNat

theorem nameStartIff (c : Char) : isNameStart c = true ↔ NameChar c ∧ ¬ Digit c := by
  have alpha : c.isAlpha = true ↔ ('A' ≤ c ∧ c ≤ 'Z') ∨ ('a' ≤ c ∧ c ≤ 'z') := by
    delta Char.isAlpha Char.isUpper Char.isLower
    simp [Char.le_def]
  have apart : c = '_' → ¬ Digit c := by
    rintro rfl
    decide
  rw [isNameStart, Bool.or_eq_true, Bool.or_eq_true, alpha, beq_iff_eq, Bool.and_eq_true, decide_eq_true_eq,
    decide_eq_true_eq]
  simp only [NameChar, Digit, charLe, Char.reduceToNat] at apart ⊢
  constructor
  · rintro (((upper | lower) | same) | high)
    · exact ⟨.inl upper, by omega⟩
    · exact ⟨.inr (.inl lower), by omega⟩
    · exact ⟨.inr (.inr (.inr (.inl same))), apart same⟩
    · exact ⟨.inr (.inr (.inr (.inr high))), by omega⟩
  · rintro ⟨upper | lower | digit | same | high, other⟩
    · exact .inl (.inl (.inl upper))
    · exact .inl (.inl (.inr lower))
    · exact absurd digit other
    · exact .inl (.inr same)
    · exact .inr high

theorem nameCharIff (c : Char) : isNameChar c = true ↔ NameChar c := by
  rw [isNameChar, Bool.or_eq_true, nameStartIff, digitIff]
  by_cases digit : Digit c
  · exact ⟨fun _ => .inr (.inr (.inl digit)), fun _ => .inr digit⟩
  · simp [digit]

theorem nameVisible {c : Char} (name : NameChar c) (plain : isBlank c = true → c.toNat < 0x80) :
    isBlank c = false := by
  by_contra blank
  rw [Bool.not_eq_false] at blank
  have small := plain blank
  simp only [isBlank, Bool.or_eq_true, Bool.and_eq_true, decide_eq_true_eq, beq_iff_eq] at blank
  have under : c = '_' → c.toNat = 95 := by
    rintro rfl
    rfl
  simp only [NameChar, Digit, charLe, Char.reduceToNat] at name
  rcases name with letter | letter | digit | same | high
  case inr.inr.inr.inl => exact absurd (under same) (by omega)
  all_goals omega

theorem nameDropped {text rest : List Char} (dropped : dropName? text = some rest) :
    ∃ name, text = name ++ rest ∧ Name name rest := by
  unfold dropName? at dropped
  split at dropped
  · rename_i c more
    obtain ⟨start, same⟩ := Option.ite_none_right_eq_some.mp dropped
    obtain rfl := Option.some.inj same
    obtain ⟨letter, other⟩ := (nameStartIff c).mp start
    refine ⟨c :: more.takeWhile isNameChar, by simp, ⟨c, rfl, other⟩, ?_, ?_⟩
    · refine List.forall_mem_cons.mpr ⟨letter, fun d member => ?_⟩
      exact (nameCharIff d).mp (List.mem_takeWhile_imp member)
    · intro d first name
      have stops := List.head?_dropWhile_not isNameChar more
      rw [Option.mem_def.mp first] at stops
      exact absurd ((nameCharIff d).mpr name) (by simpa using stops)
  · contradiction

theorem Name.drops {name rest : List Char} (named : Name name rest) : dropName? (name ++ rest) = some rest := by
  obtain ⟨first, head, other⟩ := named.starts
  obtain ⟨more, rfl⟩ := List.head?_eq_some_iff.mp head
  obtain ⟨letter, within⟩ := List.forall_mem_cons.mp named.within
  have stops : rest.dropWhile isNameChar = rest := by
    cases rest with
    | nil => rfl
    | cons d rest => exact List.dropWhile_cons_of_neg fun name => named.ends d rfl ((nameCharIff d).mp name)
  rw [List.cons_append, dropName?, if_pos ((nameStartIff first).mpr ⟨letter, other⟩),
    List.dropWhile_append_of_pos fun d member => (nameCharIff d).mpr (within d member), stops]

theorem blanksJoined {left right : List Char} (first : allBlank left = true) (second : allBlank right = true) :
    allBlank (left ++ right) = true := by
  rw [allBlank, List.all_append, Bool.and_eq_true]
  exact ⟨first, second⟩

theorem blanksDropped {blanks text : List Char} (blank : allBlank blanks = true) :
    dropBlanks (blanks ++ text) = dropBlanks text :=
  List.dropWhile_append_of_pos (List.all_eq_true.mp blank)

theorem visibleStays {text : List Char} (visible : ∀ c ∈ text.head?, isBlank c = false) : dropBlanks text = text := by
  cases text with
  | nil => rfl
  | cons c text => exact List.dropWhile_cons_of_neg (by simp [visible c rfl])

theorem blankIff (text : List Char) : allBlank text = true ↔ dropBlanks text = [] := by
  rw [allBlank, List.all_eq_true, dropBlanks, List.dropWhile_eq_nil_iff]

theorem accessorSource {text left : List Char} (dropped : dropAccessor? text = some left) :
    ∃ blanks, allBlank blanks = true ∧ Accessor text (blanks ++ left) := by
  unfold dropAccessor? at dropped
  split at dropped
  · obtain ⟨group, inside, rfl⟩ := (dropGroupIff (.inr ⟨rfl, rfl⟩)).mp dropped
    exact ⟨[], rfl, .index inside⟩
  · rename_i text
    obtain ⟨rest, read, behind⟩ := Option.bind_eq_some_iff.mp dropped
    obtain ⟨blanks, parts, blank⟩ := blanksParted text
    obtain ⟨name, parts', named⟩ := nameDropped read
    obtain ⟨between, parts'', blank'⟩ := blanksParted rest
    rw [parts, parts']
    dsimp only at behind
    split at behind
    · rename_i tail after
      rw [after] at behind parts''
      obtain ⟨group, inside, rfl⟩ := (dropGroupIff (.inl ⟨rfl, rfl⟩)).mp behind
      rw [parts''] at named ⊢
      exact ⟨[], rfl, .method blank named blank' inside⟩
    · rw [Option.some.inj behind] at parts''
      exact ⟨between, blank', parts'' ▸ .member blank named⟩
  · contradiction

theorem Accessors.behind {blanks text : List Char} (blank : allBlank blanks = true) (chain : Accessors text) :
    Accessors (blanks ++ text) := by
  cases chain with
  | done blank' => exact .done (blanksJoined blank blank')
  | next blank' first more =>
    rw [← List.append_assoc]
    exact .next (blanksJoined blank blank') first more

theorem accessorsSource {fuel : Nat} {text : List Char} (only : accessorsOnly fuel text = true) : Accessors text := by
  induction fuel generalizing text with
  | zero => exact .done only
  | succ fuel ih =>
    obtain ⟨blanks, parts, blank⟩ := blanksParted text
    rw [accessorsOnly] at only
    split at only
    · rename_i none
      exact .done ((blankIff text).mpr none)
    · rename_i c rest some
      split at only
      · rename_i left dropped
        obtain ⟨between, blank', first⟩ := accessorSource dropped
        rw [parts, some]
        exact .next blank first ((ih only).behind blank')
      · contradiction

theorem PlainBlanks.mono {part text : List Char} (plain : PlainBlanks text) (within : part ⊆ text) : PlainBlanks part :=
  fun c member => plain c (within member)

theorem Name.visible {name rest : List Char} (named : Name name rest) (plain : PlainBlanks name) :
    ∀ c ∈ name, isBlank c = false :=
  fun c member => nameVisible (named.within c member) (plain c member)

theorem Name.held {name rest : List Char} (named : Name name rest) : name ≠ [] := by
  obtain ⟨first, head, -⟩ := named.starts
  rintro rfl
  contradiction

theorem Name.stays {name rest tail : List Char} (named : Name name rest) (plain : PlainBlanks name) :
    dropBlanks (name ++ tail) = name ++ tail := by
  apply visibleStays
  obtain ⟨c, more, rfl⟩ := List.exists_cons_of_ne_nil named.held
  intro d head
  cases head
  exact named.visible plain c List.mem_cons_self

theorem Accessor.opens {text rest : List Char} (first : Accessor text rest) :
    (∃ more, text = '[' :: more) ∨ ∃ more, text = '-' :: more := by
  cases first with
  | index inside => exact .inl ⟨_, rfl⟩
  | member blank named => exact .inr ⟨_, rfl⟩
  | method blank named blank' inside => exact .inr ⟨_, rfl⟩

theorem Accessor.stays {text rest : List Char} (first : Accessor text rest) : dropBlanks text = text := by
  obtain ⟨more, rfl⟩ | ⟨more, rfl⟩ := first.opens <;> exact visibleStays (by simp; decide)

theorem Accessor.shorter {text rest : List Char} (first : Accessor text rest) : rest.length < text.length := by
  cases first <;> simp only [List.length_cons, List.length_append] <;> omega

theorem Accessor.suffix {text rest : List Char} (first : Accessor text rest) : rest <:+ text := by
  cases first with
  | @index group => exact ⟨'[' :: (group ++ [']']), by simp⟩
  | @member blanks name => exact ⟨'-' :: '>' :: (blanks ++ name), by simp⟩
  | @method blanks name between group =>
    exact ⟨'-' :: '>' :: (blanks ++ (name ++ (between ++ '(' :: (group ++ [')'])))), by simp⟩

theorem Accessors.noCall {text tail : List Char} (chain : Accessors text) : dropBlanks text ≠ '(' :: tail := by
  cases chain with
  | done blank =>
    rw [(blankIff text).mp blank]
    nofun
  | next blank first more =>
    rw [blanksDropped blank, first.stays]
    obtain ⟨more, rfl⟩ | ⟨more, rfl⟩ := first.opens <;> simp

theorem Accessor.drops {text rest : List Char} (first : Accessor text rest) (plain : PlainBlanks text)
    (chain : Accessors rest) :
    dropAccessor? text = some rest ∨ dropAccessor? text = some (dropBlanks rest) := by
  cases first with
  | index inside => exact .inl ((dropGroupIff (.inr ⟨rfl, rfl⟩)).mpr ⟨_, inside, rfl⟩)
  | @member blanks name _ blank named =>
    have visible : PlainBlanks name := plain.mono (by intro c; simp; tauto)
    refine .inr ?_
    rw [dropAccessor?, blanksDropped blank, named.stays visible, named.drops]
    simp only [bind, Option.bind]
    split
    · rename_i tail after
      exact absurd after chain.noCall
    · rfl
  | @method blanks name between group _ blank named blank' inside =>
    have visible : PlainBlanks name := plain.mono (by intro c; simp; tauto)
    refine .inl ?_
    have paren : dropBlanks (between ++ '(' :: (group ++ ')' :: rest)) = '(' :: (group ++ ')' :: rest) := by
      rw [blanksDropped blank']
      rfl
    rw [dropAccessor?, blanksDropped blank, named.stays visible, named.drops]
    simp only [bind, Option.bind, paren]
    exact (dropGroupIff (.inl ⟨rfl, rfl⟩)).mpr ⟨group, inside, rfl⟩

theorem accessorsBlanks (fuel : Nat) (text : List Char) :
    accessorsOnly fuel (dropBlanks text) = accessorsOnly fuel text := by
  have again : dropBlanks (dropBlanks text) = dropBlanks text := List.dropWhile_idempotent _ _
  cases fuel with
  | zero =>
    rw [accessorsOnly, accessorsOnly, Bool.eq_iff_iff, blankIff, blankIff, again]
  | succ fuel => rw [accessorsOnly, accessorsOnly, again]

theorem Accessors.only {fuel : Nat} {text : List Char} (chain : Accessors text) (plain : PlainBlanks text)
    (enough : text.length ≤ fuel) : accessorsOnly fuel text = true := by
  induction chain generalizing fuel with
  | @done blanks blank =>
    cases fuel with
    | zero => exact blank
    | succ fuel => rw [accessorsOnly, (blankIff blanks).mp blank]
  | @next blanks text rest blank first later ih =>
    have shorter := first.shorter
    rw [List.length_append] at enough
    obtain ⟨fuel, rfl⟩ : ∃ n, fuel = n + 1 := ⟨fuel - 1, by omega⟩
    have visible : PlainBlanks text := plain.mono (List.subset_append_right _ _)
    have behind := ih (visible.mono first.suffix.subset) (show rest.length ≤ fuel by omega)
    rw [← accessorsBlanks, blanksDropped blank, first.stays]
    obtain ⟨c, more, rfl⟩ : ∃ c more, text = c :: more := List.exists_cons_of_length_pos (by omega)
    rw [accessorsOnly, first.stays]
    rcases first.drops visible later with dropped | dropped
    · simp only [dropped, behind]
    · simp only [dropped, accessorsBlanks, behind]

theorem Name.before {name rest tail : List Char} (named : Name name rest) (edge : ∀ c ∈ tail.head?, ¬ NameChar c) :
    Name name tail :=
  ⟨named.starts, named.within, edge⟩

theorem calleeFurther {fuel : Nat} {name text tail : List Char} (named : Name name text)
    (only : qualifiersOnly fuel text = true) (edge : ∀ c ∈ tail.head?, ¬ NameChar c) :
    Callee (name ++ (text ++ tail)) tail := by
  induction fuel generalizing name text with
  | zero =>
    obtain rfl : text = [] := List.isEmpty_iff.mp only
    exact .one (named.before edge)
  | succ fuel ih =>
    unfold qualifiersOnly at only
    split at only
    · exact .one (named.before edge)
    · split at only
      · rename_i rest dropped
        obtain ⟨next, rfl, further⟩ := nameDropped dropped
        have colon : ¬ NameChar ':' := by decide
        have more := ih further only
        rw [← List.append_assoc] at more
        exact .qualified (named.before (by simpa using colon)) more
      · contradiction
    · contradiction

theorem calleeSource {text tail : List Char} (callee : isCallee text = true) (edge : ∀ c ∈ tail.head?, ¬ NameChar c) :
    Callee (text ++ tail) tail := by
  unfold isCallee at callee
  split at callee
  · rename_i rest dropped
    obtain ⟨name, rfl, named⟩ := nameDropped dropped
    rw [List.append_assoc]
    exact calleeFurther named callee edge
  · contradiction

structure Qualified (text : List Char) : Prop where
  reads : ∃ rest, dropName? text = some rest ∧ ∀ fuel, rest.length ≤ fuel → qualifiersOnly fuel rest = true
  chars : ∀ c ∈ text, NameChar c ∨ c = ':'
  starts : ∃ first ∈ text.head?, NameChar first
  ends : ∃ last ∈ text.getLast?, NameChar last

theorem Name.qualified {name rest : List Char} (named : Name name rest) : Qualified name := by
  obtain ⟨first, head, -⟩ := named.starts
  have alone := (@Name.before _ _ [] named nofun).drops
  rw [List.append_nil] at alone
  refine ⟨⟨[], alone, fun fuel _ => by cases fuel <;> rfl⟩, fun c member => .inl (named.within c member),
    ⟨first, head, named.within first (List.mem_of_head? head)⟩, ?_⟩
  refine ⟨name.getLast named.held, List.getLast?_eq_some_getLast named.held, ?_⟩
  exact named.within _ (List.getLast_mem named.held)

theorem Callee.parts {text rest : List Char} (callee : Callee text rest) :
    ∃ front, text = front ++ rest ∧ Qualified front := by
  induction callee with
  | @one name rest named => exact ⟨name, rfl, named.qualified⟩
  | @qualified name text rest named more ih =>
    obtain ⟨front, rfl, further⟩ := ih
    have colon : ¬ NameChar ':' := by decide
    obtain ⟨left, reads, only⟩ := further.reads
    obtain ⟨first, head, letter⟩ := named.qualified.starts
    obtain ⟨last, edge, letter'⟩ := further.ends
    refine ⟨name ++ ':' :: ':' :: front, by simp, ⟨':' :: ':' :: front, ?_, ?_⟩, ?_, ⟨first, ?_, letter⟩,
      ⟨last, ?_, letter'⟩⟩
    · exact (named.before (by simpa using colon)).drops
    · intro fuel enough
      simp only [List.length_cons] at enough
      obtain ⟨fuel, rfl⟩ : ∃ n, fuel = n + 1 := ⟨fuel - 1, by omega⟩
      have shorter : left.length ≤ front.length := by
        obtain ⟨name', rfl, -⟩ := nameDropped reads
        simp
      simp only [qualifiersOnly, reads]
      exact only fuel (by omega)
    · simp only [List.forall_mem_append, List.forall_mem_cons]
      exact ⟨named.qualified.chars, by simp, by simp, further.chars⟩
    · rw [Option.mem_def] at head ⊢
      rw [List.head?_append, head]
      rfl
    · rw [Option.mem_def] at edge ⊢
      rw [List.getLast?_append, List.getLast?_cons, List.getLast?_cons, edge]
      rfl

theorem Qualified.callee {text : List Char} (qualified : Qualified text) : isCallee text = true := by
  obtain ⟨rest, reads, only⟩ := qualified.reads
  simp only [isCallee, reads]
  exact only _ (Nat.le_refl _)

theorem stripBehind {text blanks : List Char} (first : ∃ c ∈ text.head?, isBlank c = false)
    (last : ∃ c ∈ text.getLast?, isBlank c = false) (blank : allBlank blanks = true) :
    strip (text ++ blanks) = text := by
  obtain ⟨c, head, visible⟩ := first
  obtain ⟨d, edge, visible'⟩ := last
  have front : dropBlanks (text ++ blanks) = text ++ blanks := by
    apply visibleStays
    rw [List.head?_append, Option.mem_def.mp head]
    simpa using visible
  have back : dropBlanks text.reverse = text.reverse := by
    apply visibleStays
    rw [List.head?_reverse, Option.mem_def.mp edge]
    simpa using visible'
  have turned : allBlank blanks.reverse = true := by rwa [allBlank, List.all_reverse]
  rw [strip, front, dropBlanksEnd, List.reverse_append]
  exact (congrArg List.reverse ((blanksDropped turned).trans back)).trans (List.reverse_reverse _)

theorem stripStarts (text : List Char) : ∀ c ∈ (strip text).head?, isBlank c = false := by
  intro c head
  obtain ⟨back, parts⟩ : strip text <+: text.dropWhile isBlank := List.rdropWhile_prefix _ _
  have first := List.head?_dropWhile_not isBlank text
  rw [← parts, List.head?_append, Option.mem_def.mp head] at first
  simpa using first

theorem PlainBlanks.edge {text : List Char} (plain : PlainBlanks text) :
    ∀ c ∈ text.head?, isBlank c = true → ¬ NameChar c := by
  intro c head blank name
  rw [nameVisible name (plain c (List.mem_of_head? head))] at blank
  contradiction

section
variable {source : List Char}

theorem variableSource (named : isVariable source = true) : Variable (strip source) := by
  unfold isVariable at named
  split at named
  · rename_i rest parts
    split at named
    · rename_i left dropped
      obtain ⟨name, rfl, known⟩ := nameDropped dropped
      exact ⟨name, left, parts, known, accessorsSource named⟩
    · contradiction
  · contradiction

theorem Variable.accepted (named : Variable (strip source)) (plain : PlainBlanks (strip source)) :
    isVariable source = true := by
  obtain ⟨name, rest, parts, known, chain⟩ := named
  have behind : PlainBlanks rest := plain.mono (by rw [parts]; intro c; simp; tauto)
  simp only [isVariable, parts, known.drops]
  exact chain.only behind (Nat.le_refl _)

theorem callSource (plain : PlainBlanks (strip source)) (called : isCall source = true) : Call (strip source) := by
  unfold isCall at called
  split at called
  · contradiction
  · rename_i callee tail split
    obtain ⟨head, parts, rfl, starts⟩ := callSplit split
    rw [Bool.and_eq_true] at called
    obtain ⟨named, behind⟩ := called
    split at behind
    · rename_i rest dropped
      obtain ⟨more, rfl⟩ := List.head?_eq_some_iff.mp starts
      obtain ⟨group, inside, rfl⟩ := (dropGroupIff (.inl ⟨rfl, rfl⟩)).mp dropped
      obtain ⟨front, back, whole, blank, blank'⟩ := stripSplit head
      -- The text is stripped, so what stands before the parenthesis has no blanks in front.
      obtain rfl : front = [] := by
        cases front with
        | nil => rfl
        | cons c front =>
          have visible := stripStarts source c (by rw [parts, whole]; rfl)
          rw [List.all_eq_true.mp blank c List.mem_cons_self] at visible
          contradiction
      rw [List.nil_append] at whole
      have first : PlainBlanks back := plain.mono (by rw [parts, whole]; intro c; simp; tauto)
      refine ⟨back, group, rest, ?_, blank', inside, accessorsSource behind⟩
      rw [parts, whole, List.append_assoc]
      refine calleeSource named ?_
      cases back with
      | nil => exact fun c head name => absurd (Option.some.inj head ▸ name) (by decide)
      | cons d back =>
        intro c head
        exact first.edge c head (List.all_eq_true.mp blank' c (List.mem_of_head? head))
    · contradiction

theorem Call.accepted (called : Call (strip source)) (plain : PlainBlanks (strip source)) : isCall source = true := by
  obtain ⟨blanks, group, rest, callee, blank, inside, chain⟩ := called
  obtain ⟨front, parts, qualified⟩ := callee.parts
  have visible {c : Char} (member : c ∈ front) (name : NameChar c) : isBlank c = false :=
    nameVisible name (plain c (parts ▸ List.mem_append_left _ member))
  have behind : PlainBlanks rest := plain.mono (by rw [parts]; intro c; simp; tauto)
  obtain ⟨first, head, letter⟩ := qualified.starts
  obtain ⟨last, edge, letter'⟩ := qualified.ends
  have stripped : strip (front ++ blanks) = front :=
    stripBehind ⟨first, head, visible (List.mem_of_head? head) letter⟩
      ⟨last, edge, visible (List.mem_of_getLast? edge) letter'⟩ blank
  have free : ∀ c ∈ front ++ blanks, (c != '(') = true := by
    intro c member
    rw [bne_iff_ne]
    rintro rfl
    rcases List.mem_append.mp member with early | late
    · exact absurd (qualified.chars _ early) (by decide)
    · exact absurd (List.all_eq_true.mp blank _ late) (by decide)
  rw [← List.append_assoc] at parts
  have front' : (strip source).takeWhile (· != '(') = front ++ blanks := by
    rw [parts, List.takeWhile_append_of_pos free]
    exact List.append_nil _
  have held : front ++ blanks ≠ [] := by
    rintro none
    rw [List.append_eq_nil_iff.mp none |>.1] at head
    contradiction
  have split : splitCall? (strip source) = some (front, '(' :: (group ++ ')' :: rest)) := by
    simp only [splitCall?, front', stripped]
    rw [parts, List.drop_left]
    simp [held]
  simp only [isCall, split, qualified.callee, Bool.true_and, (dropGroupIff (.inl ⟨rfl, rfl⟩)).mpr ⟨group, inside, rfl⟩]
  exact chain.only behind (Nat.le_refl _)

end

theorem expressionGrammar {text : List Char} (plain : PlainBlanks text) :
    (isVariable text = true ↔ Variable (strip text)) ∧ (isCall text = true ↔ Call (strip text)) := by
  have inner : PlainBlanks (strip text) := by
    obtain ⟨front, back, parts, -⟩ := stripSplit text
    refine plain.mono fun c member => ?_
    rw [parts]
    exact List.mem_append_right _ (List.mem_append_left _ member)
  exact ⟨⟨variableSource, fun named => named.accepted inner⟩, callSource inner, fun called => called.accepted inner⟩

def spacedChain : List Char := " $obj -> get('x)', [1]) [$i]\t".toList

theorem spacedChainRead : PlainBlanks spacedChain ∧ Variable (strip spacedChain) ∧ ¬ Call (strip spacedChain) := by
  have plain : PlainBlanks spacedChain := by decide +kernel
  obtain ⟨named, called⟩ := expressionGrammar plain
  exact ⟨plain, named.mp (by decide +kernel), fun call => absurd (called.mpr call) (by decide +kernel)⟩

end DebugSweep.Edit
