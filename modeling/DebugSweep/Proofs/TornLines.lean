import DebugSweep.Proofs.QuietLists
import DebugSweep.Proofs.ReadBack

/-! Texts that were cut off. Main statement: no text that is cut off inside a record goes on as a record with a
further one behind it. -/
namespace DebugSweep.Json

/-- Where a reader of a text stands: outside its strings, directly behind a string or a bracket that closes, in a
string, or behind a backslash in one. The number tells how many brackets are open; `closed` that the last one was
closed. -/
inductive Stand where
  | outside (depth : Nat)
  | behind (depth : Nat)
  | inside (depth : Nat)
  | escaped (depth : Nat)
  | closed
  deriving DecidableEq

namespace Stand

def shut : Nat → Stand
  | 0 => closed
  | depth + 1 => behind depth

def step? : Stand → Char → Option Stand
  | outside depth, c =>
      if c == '"' then some (inside depth)
      else if c == '[' || c == '\x7b' then some (outside (depth + 1))
      else if c == ']' || c == '\x7d' then some (shut depth)
      else some (outside depth)
  | behind depth, c =>
      if isSpace c then some (behind depth)
      else if c == ',' || c == ':' then some (outside depth)
      else if c == ']' || c == '\x7d' then some (shut depth)
      else none
  | inside depth, c =>
      if c == '"' then some (behind depth) else if c == '\\' then some (escaped depth) else some (inside depth)
  | escaped depth, c => if c == 'u' || (escapeOf? c).isSome then some (inside depth) else none
  | closed, c => if isSpace c then some closed else none

def through? (stand : Stand) (text : List Char) : Option Stand := text.foldlM step? stand

end Stand

def Plain (text : List Char) : Prop := ∀ c ∈ text, c ∉ ['"', '[', ']', '\x7b', '\x7d']

instance (text : List Char) : Decidable (Plain text) :=
  List.decidableBAll (fun c => c ∉ ['"', '[', ']', '\x7b', '\x7d']) text

theorem Plain.cons {c : Char} {text : List Char} (here : c ∉ ['"', '[', ']', '\x7b', '\x7d']) (later : Plain text) :
    Plain (c :: text) := List.forall_mem_cons.mpr ⟨here, later⟩

theorem Plain.append {text more : List Char} (front : Plain text) (back : Plain more) : Plain (text ++ more) :=
  fun c member => (List.mem_append.mp member).elim (front c) (back c)

theorem digitsPlain {text : List Char} (digits : Digits text) : Plain text := by
  intro c member mark
  have apart : ∀ c ∈ ['"', '[', ']', '\x7b', '\x7d'], isDigit c = false := by simp [isDigit]
  exact absurd ((apart c mark).symm.trans (digits c member)) Bool.false_ne_true

theorem dropWordSplit {word text rest : List Char} (dropped : dropWord? word text = some rest) : text = word ++ rest := by
  induction word generalizing text with
  | nil => exact Option.some.inj dropped
  | cons w word ih =>
    cases text with
    | nil => contradiction
    | cons c text =>
      rw [dropWord?] at dropped
      split at dropped
      · rename_i same
        rw [same, List.cons_append, ← ih dropped]
      · contradiction

theorem takenDigits (text : List Char) : Digits (text.takeWhile isDigit) := fun _ member => List.mem_takeWhile_imp member

theorem fractionSplit {text rest : List Char} {fraction : Option (List Char)} (read : readFraction text = (fraction, rest)) :
    ∃ used, text = used ++ rest ∧ Plain used := by
  unfold readFraction at read
  split at read
  · rename_i more
    dsimp only at read
    split at read
    · cases read
      exact ⟨[], rfl, by decide⟩
    · cases read
      exact ⟨'.' :: more.takeWhile isDigit, by simp, .cons (by decide) (digitsPlain (takenDigits more))⟩
  · cases read
    exact ⟨[], rfl, by decide⟩

theorem exponentSplit {text rest : List Char} {exponent : Option Int} (read : readExponent text = (exponent, rest)) :
    ∃ used, text = used ++ rest ∧ Plain used := by
  have signed (sign : List Char) {body : List Char} {size : Int} (plain : Plain sign)
      (read : (if (body.takeWhile isDigit).isEmpty then (none, sign ++ body)
        else (some size, body.dropWhile isDigit)) = (exponent, rest)) :
      ∃ used, sign ++ body = used ++ rest ∧ Plain used := by
    split at read
    · cases read
      exact ⟨[], rfl, by decide⟩
    · cases read
      exact ⟨sign ++ body.takeWhile isDigit, by simp, plain.append (digitsPlain (takenDigits body))⟩
  unfold readExponent at read
  split at read
  · rename_i e more
    split at read
    · rename_i mark
      have named : e ∉ ['"', '[', ']', '\x7b', '\x7d'] := by
        rcases (by simpa using mark : e = 'e' ∨ e = 'E') with rfl | rfl <;> decide
      dsimp only at read
      split at read
      · exact signed [e, '-'] (.cons named (by decide)) read
      · exact signed [e, '+'] (.cons named (by decide)) read
      · exact signed [e] (.cons named (by decide)) read
    · cases read
      exact ⟨[], rfl, by decide⟩
  · cases read
    exact ⟨[], rfl, by decide⟩

theorem wholeDigits (text : List Char) : Digits (wholePart text) ∧ wholePart text <+: text := by
  unfold wholePart
  split
  · exact ⟨zerosDigits 1, ⟨_, rfl⟩⟩
  · exact ⟨takenDigits _, List.takeWhile_prefix _⟩

theorem numberSplit {negative : Bool} {text rest : List Char} {v : Value} (read : readNumber negative text = .ok (v, rest)) :
    ∃ used, text = used ++ rest ∧ Plain used := by
  obtain ⟨digits, front⟩ := wholeDigits text
  have whole : text = wholePart text ++ text.drop (wholePart text).length := (List.prefix_iff_eq_append.mp front).symm
  rw [readNumberParts] at read
  split at read
  · contradiction
  · unfold readBehind at read
    cases fractional : readFraction (text.drop (wholePart text).length) with
    | mk fraction rest₁ =>
      cases exponential : readExponent rest₁ with
      | mk exponent rest₂ =>
        obtain ⟨places, first, placesPlain⟩ := fractionSplit fractional
        obtain ⟨power, second, powerPlain⟩ := exponentSplit exponential
        simp only [fractional, exponential] at read
        have same : rest₂ = rest := by
          split at read
          · split at read
            · contradiction
            · cases read
              rfl
          · cases read
            rfl
        refine ⟨wholePart text ++ places ++ power, ?_, ((digitsPlain digits).append placesPlain).append powerPlain⟩
        rw [List.append_assoc, List.append_assoc, ← same, ← second, ← first]
        exact whole

namespace Stand

theorem strings (depth : Nat) : Strings step? (inside depth) (escaped depth) (behind depth) where
  plain c _ quote slash := by simp [step?, quote, slash]
  slash := rfl
  quote := rfl
  escape c known := by
    have taken : (c == 'u' || (escapeOf? c).isSome) = true := by simpa using known
    simp [step?, taken]

theorem throughCons (stand : Stand) (c : Char) (text : List Char) :
    stand.through? (c :: text) = (stand.step? c).bind (fun next => next.through? text) := rfl

def After (depth : Nat) (stand : Stand) : Prop := stand = outside depth ∨ stand = behind depth

variable {depth : Nat} {text rest : List Char}

theorem outsideStays {used : List Char} (plain : Plain used) (rest : List Char) :
    (outside depth).through? (used ++ rest) = (outside depth).through? rest := by
  induction used with
  | nil => rfl
  | cons c used ih =>
    obtain ⟨here, later⟩ := List.forall_mem_cons.mp plain
    have stays : step? (outside depth) c = some (outside depth) := by
      simp only [List.mem_cons, List.not_mem_nil, or_false, not_or] at here
      simp [step?, here]
    rw [List.cons_append, throughCons, stays]
    exact ih later

theorem After.space {stand : Stand} (after : After depth stand) (text : List Char) :
    stand.through? (skipSpace text) = stand.through? text := by
  unfold skipSpace
  induction text with
  | nil => rfl
  | cons c text ih =>
    rw [List.dropWhile_cons]
    split
    · rename_i space
      have stays : stand.step? c = some stand := by
        rcases after with rfl | rfl
        · have blank : c ∈ [' ', '\n', '\t', '\r'] := by simpa [isSpace, or_assoc] using space
          have each : ∀ c ∈ [' ', '\n', '\t', '\r'], step? (outside depth) c = some (outside depth) := by simp [step?]
          exact each c blank
        · simp [step?, space]
      rw [ih, throughCons, stays]
      rfl
    · rfl

theorem After.mark {stand : Stand} (after : After depth stand) (rest : List Char) :
    stand.through? (',' :: rest) = (outside depth).through? rest ∧
      stand.through? (':' :: rest) = (outside depth).through? rest ∧
      stand.through? (']' :: rest) = (shut depth).through? rest ∧
      stand.through? ('\x7d' :: rest) = (shut depth).through? rest := by
  rcases after with rfl | rfl <;> exact ⟨rfl, rfl, rfl, rfl⟩

theorem wordThrough {v : Value} (read : readWord? text = some (v, rest)) :
    (outside depth).through? text = (outside depth).through? rest := by
  obtain ⟨⟨word, value⟩, member, dropped⟩ := List.exists_of_findSome?_eq_some read
  obtain ⟨rest', same, equal⟩ := Option.map_eq_some_iff.mp dropped
  cases equal
  have plain : ∀ pair ∈ words, Plain pair.1.toList := by
    simp [words, Plain]
  rw [dropWordSplit same]
  exact outsideStays (plain _ member) rest

theorem numberThrough {negative : Bool} {v : Value} (read : readNumber negative text = .ok (v, rest)) :
    (outside depth).through? text = (outside depth).through? rest := by
  obtain ⟨used, rfl, plain⟩ := numberSplit read
  exact outsideStays plain rest

structure Follows (fuel : Nat) : Prop where
  value : ∀ (depth : Nat) {text rest : List Char} {v : Value}, readValue fuel text = .ok (v, rest) →
    ∃ stand, After depth stand ∧ (outside depth).through? text = stand.through? rest
  items : ∀ (depth : Nat) {text rest : List Char} {v : Value} {done : List Value},
    readItems fuel done text = .ok (v, rest) → (outside depth).through? text = (shut depth).through? rest
  fields : ∀ (depth : Nat) {text rest : List Char} {v : Value} {done : List (String × Value)},
    readFields fuel done text = .ok (v, rest) → (outside depth).through? text = (shut depth).through? rest

theorem nextValue {fuel : Nat} {v : Value} (known : Follows fuel) (read : readValue (fuel + 1) text = .ok (v, rest)) :
    ∃ stand, After depth stand ∧ (outside depth).through? text = stand.through? rest := by
  have opened (more : List Char) :
      (outside (depth + 1)).through? (skipSpace more) = (outside (depth + 1)).through? more :=
    After.space (.inl rfl) more
  unfold readValue at read
  split at read
  · rename_i found word
    cases read
    exact ⟨_, .inl rfl, wordThrough word⟩
  · split at read
    · rename_i behind _
      cases chars : readChars (behind.length + 1) [] behind with
      | error e =>
        rw [chars] at read
        contradiction
      | ok pair =>
        rw [chars] at read
        cases read
        exact ⟨_, .inr rfl, (strings depth).chars chars⟩
    · rename_i more _
      refine ⟨_, .inr rfl, (opened more).symm.trans ?_⟩
      split at read
      · rename_i closed
        cases read
        rw [closed]
        rfl
      · exact known.items _ read
    · rename_i more _
      refine ⟨_, .inr rfl, (opened more).symm.trans ?_⟩
      split at read
      · rename_i closed
        cases read
        rw [closed]
        rfl
      · exact known.fields _ read
    · have onward : (outside depth).through? _ = (outside depth).through? rest := numberThrough read
      exact ⟨_, .inl rfl, onward⟩
    · exact ⟨_, .inl rfl, numberThrough read⟩

theorem nextItem {fuel : Nat} {v : Value} {done : List Value} (known : Follows fuel)
    (read : readItems (fuel + 1) done text = .ok (v, rest)) :
    (outside depth).through? text = (shut depth).through? rest := by
  unfold readItems at read
  split at read
  · contradiction
  · rename_i item behind first
    obtain ⟨stand, after, whole⟩ := known.value depth first
    rw [whole, ← after.space]
    split at read
    · rename_i closed
      cases read
      rw [closed, (after.mark rest).2.2.1]
    · rename_i more comma
      rw [comma, (after.mark more).1, ← known.items _ read, After.space (.inl rfl)]
    · contradiction

theorem nextField {fuel : Nat} {v : Value} {done : List (String × Value)} (known : Follows fuel)
    (read : readFields (fuel + 1) done text = .ok (v, rest)) :
    (outside depth).through? text = (shut depth).through? rest := by
  have outer (more : List Char) : (outside depth).through? (skipSpace more) = (outside depth).through? more :=
    After.space (.inl rfl) more
  have name (more : List Char) : (behind depth).through? (skipSpace more) = (behind depth).through? more :=
    After.space (.inr rfl) more
  unfold readFields at read
  dsimp only at read
  split at read
  · rename_i quoted
    split at read
    · contradiction
    · rename_i key behind chars
      split at read
      · rename_i more colon
        split at read
        · contradiction
        · rename_i value after second
          obtain ⟨stand, stays, whole⟩ := known.value depth second
          have front : (outside depth).through? ('"' :: quoted) = stand.through? after := by
            rw [← whole, outer, ← ((After.mark (.inr rfl)) more).2.1, ← colon, name]
            exact (strings depth).chars chars
          rw [front, ← stays.space]
          split at read
          · rename_i closed
            cases read
            rw [closed, (stays.mark rest).2.2.2]
          · rename_i last comma
            rw [comma, (stays.mark last).1, ← known.fields _ read, outer]
          · contradiction
      · contradiction
  · contradiction

theorem follows (fuel : Nat) : Follows fuel := by
  induction fuel with
  | zero => exact ⟨nofun, nofun, nofun⟩
  | succ fuel ih => exact ⟨fun _ => nextValue ih, fun _ => nextItem ih, fun _ => nextField ih⟩

theorem closedSpace {rest : List Char} (blank : (skipSpace rest).isEmpty = true) : closed.through? rest = some closed := by
  induction rest with
  | nil => rfl
  | cons c rest ih =>
    unfold skipSpace at blank
    rw [List.dropWhile_cons] at blank
    split at blank
    · rename_i space
      rw [throughCons, step?, if_pos space]
      exact ih blank
    · contradiction

end Stand

theorem numberNoRecord {negative : Bool} {text rest : List Char} {fields : List (String × Value)} :
    readNumber negative text ≠ .ok (.record fields, rest) := by
  intro read
  rw [readNumberParts] at read
  unfold readBehind at read
  dsimp only at read
  split at read
  · contradiction
  · split at read
    · split at read <;> cases read
    · cases read

theorem recordCloses {fuel : Nat} {text rest : List Char} {fields : List (String × Value)}
    (read : readValue fuel text = .ok (.record fields, rest)) :
    ∃ more, text = '\x7b' :: more ∧ (Stand.outside 0).through? more = Stand.closed.through? rest := by
  cases fuel with
  | zero => contradiction
  | succ fuel =>
    unfold readValue at read
    split at read
    · rename_i word
      obtain ⟨⟨word', value⟩, member, found⟩ := List.exists_of_findSome?_eq_some word
      obtain ⟨behind, -, same⟩ := Option.map_eq_some_iff.mp found
      cases read
      cases same
      have every : ∀ pair ∈ words, ∀ fields, pair.2 ≠ .record fields := by simp [words]
      exact absurd rfl (every _ member fields)
    · split at read
      · rename_i behind _
        revert read
        cases readChars (behind.length + 1) [] behind with
        | error e => exact fun failed => nomatch failed
        | ok found => exact fun read => nomatch read
      · split at read
        · cases read
        · obtain ⟨items, same, -⟩ := itemsList read
          contradiction
      · rename_i more _
        refine ⟨more, rfl, ?_⟩
        rw [← Stand.After.space (.inl rfl : Stand.After 0 (.outside 0))]
        split at read
        · rename_i closed
          cases read
          rw [closed]
          rfl
        · exact (Stand.follows fuel).fields _ read
      · exact absurd read numberNoRecord
      · exact absurd read numberNoRecord

theorem tornUnread {torn line more : List Char} {fuel : Nat} {fields : List (String × Value)} {c : Char}
    (filled : torn ≠ []) (starts : line = '\x7b' :: '"' :: c :: more) (letter : c.isAlpha = true)
    (alone : readValue fuel line = .ok (.record fields, [])) {fuel' : Nat} {fields' : List (String × Value)}
    {rest : List Char} (blank : (skipSpace rest).isEmpty = true) :
    readValue fuel' (torn ++ line) ≠ .ok (.record fields', rest) := by
  intro read
  obtain ⟨behind, whole, closes⟩ := recordCloses read
  obtain ⟨d, tail, rfl⟩ := List.exists_cons_of_ne_nil filled
  rw [List.cons_append] at whole
  obtain ⟨rfl, rfl⟩ := List.cons.inj whole
  rw [Stand.closedSpace blank, Stand.through?, List.foldlM_append] at closes
  obtain ⟨stand, -, last⟩ := Option.bind_eq_some_iff.mp closes
  change stand.through? line = some .closed at last
  cases stand with
  | outside depth =>
    -- Outside strings the line leads back to where it starts.
    obtain ⟨stand', after, same⟩ := (Stand.follows fuel).value depth alone
    rw [last] at same
    obtain rfl : Stand.closed = stand' := Option.some.inj same
    rcases after with other | other <;> contradiction
  | inside depth =>
    -- In a string its second character is the quote that closes it, behind which no letter can stand.
    have letters : ∀ c' ∈ [' ', '\n', '\t', '\r', ',', ':', ']', '\x7d'], c'.isAlpha = false := by simp
    have apart : ∀ c' ∈ [' ', '\n', '\t', '\r', ',', ':', ']', '\x7d'], c ≠ c' := by
      rintro c' member rfl
      exact absurd ((letters c member).symm.trans letter) Bool.false_ne_true
    simp only [List.forall_mem_cons, List.not_mem_nil, false_imp_iff, implies_true, and_true] at apart
    rw [starts] at last
    simp [Stand.throughCons, Stand.step?, isSpace, apart] at last
  | behind depth =>
    rw [starts] at last
    simp [Stand.throughCons, Stand.step?, isSpace] at last
  | escaped depth =>
    rw [starts] at last
    simp [Stand.throughCons, Stand.step?, escapeOf?] at last
  | closed =>
    rw [starts] at last
    simp [Stand.throughCons, Stand.step?, isSpace] at last

end DebugSweep.Json
