import DebugSweep.Files.Source
import DebugSweep.Proofs.Endings
import DebugSweep.Proofs.TextLists

/-! Lists of texts as source text. Main statement: a file that is loaded as a list of texts holds no
debug statement, for what stands outside its strings is brackets, commas and blanks. -/
namespace DebugSweep.Json
open Text

/-- Where a reader of a list of texts stands: between two texts, or in one, whose next character may be
escaped. -/
inductive Spot where
  | between
  | inside (escaped : Bool)

def joins (c : Char) : Bool := isSpace c || c == '[' || c == ']' || c == ','

def Spot.step? (spot : Spot) (c : Char) : Option Spot :=
  match spot with
  | .between => if c == '"' then some (.inside false) else if joins c then some .between else none
  | .inside escaped =>
      if c.toNat < 0x20 then none
      else if escaped then some (.inside false)
      else if c == '\\' then some (.inside true)
      else if c == '"' then some .between
      else some (.inside false)

def Spot.through? (spot : Spot) (text : List Char) : Option Spot := text.foldlM Spot.step? spot

theorem Spot.throughCons (spot : Spot) (c : Char) (text : List Char) :
    spot.through? (c :: text) = (spot.step? c).bind (fun next => next.through? text) := rfl

theorem skipSpaceThrough (text : List Char) :
    Spot.between.through? (skipSpace text) = Spot.between.through? text := by
  unfold skipSpace
  induction text with
  | nil => rfl
  | cons c text ih =>
    rw [List.dropWhile_cons]
    split
    · rename_i space
      have other : c ≠ '"' := by
        rintro rfl
        contradiction
      simp [Spot.throughCons, Spot.step?, joins, space, other, ih]
    · rfl

theorem Spot.openThrough (text : List Char) :
    Spot.between.through? ('[' :: text) = Spot.between.through? (skipSpace text) :=
  (skipSpaceThrough text).symm

theorem shownGiven {α : Type} {f : Char → Option α} {c : Char} {a : α}
    (controls : ∀ n < 0x20, f (Char.ofNat n) = none) (given : f c = some a) : ¬ c.toNat < 0x20 := by
  intro small
  have none := controls c.toNat small
  rw [Char.ofNat_toNat, given] at none
  contradiction

/-- A step function goes through the characters of a string as the reader does: from `inside` back to it, with a
backslash over `escaped`, and with the closing quote to `after`. -/
structure Strings {σ : Type} (step? : σ → Char → Option σ) (inside escaped after : σ) : Prop where
  plain : ∀ c, ¬ c.toNat < 0x20 → c ≠ '"' → c ≠ '\\' → step? inside c = some inside
  slash : step? inside '\\' = some escaped
  quote : step? inside '"' = some after
  escape : ∀ c, c = 'u' ∨ (escapeOf? c).isSome = true → step? escaped c = some inside

namespace Strings
variable {σ : Type} {step? : σ → Char → Option σ} {inside escaped after : σ}

theorem hex (strings : Strings step? inside escaped after) {c : Char} {n : Nat} (digit : hexValue? c = some n) :
    step? inside c = some inside := by
  refine strings.plain c (shownGiven (by decide) digit) ?_ ?_
  all_goals
    rintro rfl
    contradiction

theorem unit (strings : Strings step? inside escaped after) {text rest : List Char} {unit : Nat}
    (read : readUnit? text = some (unit, rest)) : text.foldlM step? inside = rest.foldlM step? inside := by
  unfold readUnit? at read
  split at read
  · rename_i a b c d tail
    obtain ⟨n, digits, same⟩ := Option.map_eq_some_iff.mp read
    obtain ⟨-, rfl⟩ := Prod.mk.inj same
    simp only [ofHex?, List.foldl_cons, List.foldl_nil, Option.bind_eq_bind, Option.bind_eq_some_iff] at digits
    obtain ⟨_, ⟨_, ⟨_, ⟨_, -, x, first, -⟩, y, second, -⟩, z, third, -⟩, w, fourth, -⟩ := digits
    simp [List.foldlM_cons, strings.hex first, strings.hex second, strings.hex third, strings.hex fourth]
  · contradiction

theorem escapeThrough (strings : Strings step? inside escaped after) {c : Char}
    (known : c = 'u' ∨ (escapeOf? c).isSome = true) (rest : List Char) :
    ('\\' :: c :: rest).foldlM step? inside = rest.foldlM step? inside := by
  simp [List.foldlM_cons, strings.slash, strings.escape c known]

theorem code (strings : Strings step? inside escaped after) {text rest : List Char} {c : Char}
    (read : readCode? text = some (c, rest)) : text.foldlM step? inside = rest.foldlM step? inside := by
  obtain ⟨⟨unit, behind⟩, first, read⟩ := Option.bind_eq_some_iff.mp read
  have whole := strings.unit first
  have single : ∀ c', some (c', behind) = some (c, rest) → behind = rest := by
    intro c' same
    exact (Prod.mk.inj (Option.some.inj same)).2
  dsimp only at read
  split at read
  · split at read
    · rename_i more
      split at read
      · rename_i low tail second
        split at read
        · obtain ⟨-, rfl⟩ := Prod.mk.inj (Option.some.inj read)
          rw [whole, strings.escapeThrough (.inl rfl), strings.unit second]
        · rw [whole, single _ read]
      · rw [whole, single _ read]
    · rw [whole, single _ read]
  · rw [whole, single _ read]

theorem chars (strings : Strings step? inside escaped after) {fuel : Nat} {done text rest : List Char} {s : String}
    (read : readChars fuel done text = .ok (s, rest)) : text.foldlM step? inside = rest.foldlM step? after := by
  induction fuel generalizing done text with
  | zero => cases text <;> contradiction
  | succ fuel ih =>
    cases text with
    | nil => contradiction
    | cons c text =>
      unfold readChars at read
      split at read
      · rename_i quote
        cases read
        obtain rfl : c = '"' := by simpa using quote
        simp [List.foldlM_cons, strings.quote]
      · split at read
        · rename_i slash
          obtain rfl : c = '\\' := by simpa using slash
          split at read
          · contradiction
          · rename_i e behind
            split at read
            · rename_i unit
              split at read
              · rename_i ch tail code
                rw [strings.escapeThrough (.inl (by simpa using unit)), strings.code code, ih read]
              · contradiction
            · split at read
              · rename_i ch escape
                rw [strings.escapeThrough (.inr (by simp [escape])), ih read]
              · contradiction
        · split at read
          · contradiction
          · rename_i quote slash shown
            have step := strings.plain c shown (by simpa using quote) (by simpa using slash)
            simp [List.foldlM_cons, step, ih read]

end Strings

theorem spotStrings : Strings Spot.step? (.inside false) (.inside true) .between where
  plain c shown quote slash := by simp [Spot.step?, shown, quote, slash]
  slash := rfl
  quote := rfl
  escape c known := by
    have shown : ¬ c.toNat < 0x20 := by
      rcases known with rfl | known
      · decide
      · obtain ⟨ch, escape⟩ := Option.isSome_iff_exists.mp known
        exact shownGiven (by decide) escape
    simp [Spot.step?, shown]

theorem wordPlain {text rest : List Char} {v : Value} (read : readWord? text = some (v, rest)) :
    v.text? = none ∧ v.texts? = none := by
  obtain ⟨⟨word, value⟩, member, found⟩ := List.exists_of_findSome?_eq_some read
  obtain ⟨behind, -, same⟩ := Option.map_eq_some_iff.mp found
  cases same
  have every : ∀ pair ∈ words, pair.2.text? = none ∧ pair.2.texts? = none := by
    simp [words, Value.text?, Value.texts?]
  exact every _ member

theorem numberPlain {negative : Bool} {text rest : List Char} {v : Value}
    (read : readNumber negative text = .ok (v, rest)) : v.text? = none ∧ v.texts? = none := by
  unfold readNumber at read
  extract_lets whole behind at read
  split at read
  · contradiction
  · split at read
    split at read
    split at read
    · split at read
      · contradiction
      · cases read
        exact ⟨rfl, rfl⟩
    · cases read
      exact ⟨rfl, rfl⟩

theorem fieldsRecord {fuel : Nat} {done : List (String × Value)} {text rest : List Char} {v : Value}
    (read : readFields fuel done text = .ok (v, rest)) : ∃ fields, v = .record fields := by
  induction fuel generalizing done text with
  | zero => contradiction
  | succ fuel ih =>
    unfold readFields at read
    dsimp only at read
    split at read
    · split at read
      · contradiction
      · split at read
        · split at read
          · contradiction
          · split at read
            · cases read
              exact ⟨_, rfl⟩
            · exact ih read
            · contradiction
        · contradiction
    · contradiction

theorem itemsList {fuel : Nat} {done : List Value} {text rest : List Char} {v : Value}
    (read : readItems fuel done text = .ok (v, rest)) :
    ∃ items, v = .list items ∧ ∀ item ∈ done, item ∈ items := by
  induction fuel generalizing done text with
  | zero => contradiction
  | succ fuel ih =>
    unfold readItems at read
    split at read
    · contradiction
    · split at read
      · cases read
        exact ⟨_, rfl, fun item member => by simp [member]⟩
      · obtain ⟨items, same, known⟩ := ih read
        exact ⟨items, same, fun item member => known item (List.mem_cons_of_mem _ member)⟩
      · contradiction

inductive Taken (text rest : List Char) : Value → Prop
  | string {s : String} (whole : Spot.between.through? text = Spot.between.through? rest) :
      Taken text rest (.text s)
  | empty {behind : List Char} (opened : text = '[' :: behind) (closed : skipSpace behind = ']' :: rest) :
      Taken text rest (.list [])
  | items {behind : List Char} {fuel : Nat} {v : Value} (opened : text = '[' :: behind)
      (read : readItems fuel [] (skipSpace behind) = .ok (v, rest)) : Taken text rest v
  | other {v : Value} (plain : v.text? = none ∧ v.texts? = none) : Taken text rest v

theorem valueTaken {fuel : Nat} {text rest : List Char} {v : Value} (read : readValue fuel text = .ok (v, rest)) :
    Taken text rest v := by
  cases fuel with
  | zero => contradiction
  | succ fuel =>
    unfold readValue at read
    split at read
    · rename_i found word
      cases read
      exact .other (wordPlain word)
    · split at read
      · rename_i behind _
        cases chars : readChars (behind.length + 1) [] behind with
        | error e =>
          rw [chars] at read
          contradiction
        | ok pair =>
          rw [chars] at read
          cases read
          exact .string (spotStrings.chars chars)
      · split at read
        · rename_i closed
          cases read
          exact .empty rfl closed
        · exact .items rfl read
      · split at read
        · cases read
          exact .other ⟨rfl, rfl⟩
        · obtain ⟨fields, rfl⟩ := fieldsRecord read
          exact .other ⟨rfl, rfl⟩
      · exact .other (numberPlain read)
      · exact .other (numberPlain read)

theorem textThrough {fuel : Nat} {text rest : List Char} {s : String}
    (read : readValue fuel text = .ok (.text s, rest)) :
    Spot.between.through? text = Spot.between.through? rest := by
  cases valueTaken read with
  | string whole => exact whole
  | items opened read =>
    obtain ⟨items, same, -⟩ := itemsList read
    contradiction
  | other plain => exact absurd plain.1 (by simp [Value.text?])

theorem itemsThrough {fuel : Nat} {done : List Value} {text rest : List Char} {v : Value} {texts : List String}
    (read : readItems fuel done text = .ok (v, rest)) (plain : v.texts? = some texts) :
    Spot.between.through? text = Spot.between.through? rest := by
  induction fuel generalizing done text with
  | zero => contradiction
  | succ fuel ih =>
    obtain ⟨items, rfl, known⟩ := itemsList read
    have spelled := Journal.textsOf plain
    unfold readItems at read
    split at read
    · contradiction
    · rename_i item behind first
      split at read
      · rename_i after closed
        obtain ⟨whole, rfl⟩ := Prod.mk.inj (Except.ok.inj read)
        obtain ⟨s, -, rfl⟩ : ∃ s ∈ texts, Value.text s = item := by
          have member : item ∈ items := by
            cases whole
            simp
          rw [spelled] at member
          exact List.mem_map.mp member
        rw [textThrough first, ← skipSpaceThrough, closed]
        rfl
      · rename_i after comma
        obtain ⟨items', same, known'⟩ := itemsList read
        obtain ⟨s, -, rfl⟩ : ∃ s ∈ texts, Value.text s = item := by
          have member := known' item List.mem_cons_self
          cases same
          rw [spelled] at member
          exact List.mem_map.mp member
        rw [textThrough first, ← skipSpaceThrough, comma, ← ih read, skipSpaceThrough]
        rfl
      · contradiction

theorem listThrough {text : String} {v : Value} {texts : List String} (accepted : read text = .ok v)
    (plain : v.texts? = some texts) : Spot.between.through? text.toList = some .between := by
  unfold read at accepted
  dsimp only at accepted
  rw [← skipSpaceThrough]
  generalize skipSpace text.toList = chars at accepted ⊢
  split at accepted
  · contradiction
  · rename_i value rest first
    split at accepted
    · rename_i done
      cases accepted
      have last : Spot.between.through? rest = some .between := by
        rw [← skipSpaceThrough, List.isEmpty_iff.mp done]
        rfl
      rw [← last]
      cases valueTaken first with
      | string whole => contradiction
      | @empty behind opened closed =>
        rw [opened, Spot.openThrough, closed]
        rfl
      | @items behind fuel _ opened listed =>
        rw [opened, Spot.openThrough]
        exact itemsThrough listed plain
      | other none =>
        rw [none.2] at plain
        contradiction
    · contradiction

theorem Spot.control {spot next : Spot} {c : Char} (low : c.toNat < 0x20) (step : spot.step? c = some next) :
    spot = .between ∧ next = .between := by
  cases spot with
  | inside escaped => simp [Spot.step?, low] at step
  | between =>
    have other : c ≠ '"' := by
      rintro rfl
      contradiction
    simp only [Spot.step?, beq_iff_eq, other, if_false] at step
    split at step
    · exact ⟨rfl, (Option.some.inj step).symm⟩
    · contradiction

theorem Spot.throughFront {spot : Spot} {text last : List Char} (low : ∀ c ∈ last, c.toNat < 0x20)
    (whole : spot.through? (text ++ last) = some .between) : spot.through? text = some .between := by
  unfold Spot.through? at whole ⊢
  rw [List.foldlM_append] at whole
  obtain ⟨middle, front, back⟩ := Option.bind_eq_some_iff.mp whole
  cases last with
  | nil => rw [front, ← back]; rfl
  | cons c last =>
    obtain ⟨next, step, -⟩ := Option.bind_eq_some_iff.mp back
    rw [front, (Spot.control (low c List.mem_cons_self) step).1]

theorem Spot.throughLines {spot : Spot} {text : List Char} (whole : spot.through? text = some .between) :
    ∃ first rest, lines text = first :: rest ∧ spot.through? first = some .between ∧
      ∀ raw ∈ rest, Spot.between.through? raw = some .between := by
  induction text generalizing spot with
  | nil => exact ⟨[], [], rfl, whole, by simp⟩
  | cons c text ih =>
    obtain ⟨next, step, later⟩ := Option.bind_eq_some_iff.mp whole
    obtain ⟨first, rest, parts, start, others⟩ := ih later
    unfold lines at parts ⊢
    rw [List.splitOn_cons_eq_if_modifyHead, parts]
    split
    · rename_i feed
      obtain rfl : c = '\n' := by simpa using feed
      obtain ⟨rfl, rfl⟩ := Spot.control (by decide) step
      exact ⟨[], first :: rest, rfl, rfl, List.forall_mem_cons.mpr ⟨start, others⟩⟩
    · refine ⟨c :: first, rest, rfl, ?_, others⟩
      rw [Spot.throughCons, step]
      exact start

theorem Spot.throughEndings {spot last : Spot} {text : List Char} (after : Bool)
    (whole : spot.through? text = some last) : spot.through? (plainEndings [] after text) = some last := by
  induction text generalizing spot after with
  | nil => exact whole
  | cons c text ih =>
    obtain ⟨next, step, later⟩ := Option.bind_eq_some_iff.mp whole
    rw [plainEndings]
    split
    · rename_i ending
      obtain rfl : c = '\r' := by simpa using ending
      obtain ⟨rfl, rfl⟩ := Spot.control (by decide) step
      rw [endingsDone]
      exact ih true later
    · split
      · rename_i pair
        obtain ⟨rfl, -⟩ : c = '\n' ∧ after = true := by simpa using pair
        obtain ⟨rfl, rfl⟩ := Spot.control (by decide) step
        exact ih false later
      · rw [endingsDone, List.reverse_singleton, List.singleton_append, Spot.throughCons, step]
        exact ih false later

def Spot.mode : Spot → Lexis.Mode
  | .between => .code
  | .inside escaped => .literal (some '"') escaped

def joiners : List Char := [' ', '\n', '\t', '\r', '[', ']', ',']

theorem joinsListed {c : Char} : joins c = true ↔ c ∈ joiners := by
  simp [joins, isSpace, joiners, or_assoc]

theorem Spot.stepMode {spot next : Spot} {c : Char} (step : spot.step? c = some next)
    (following : Option Char) : (spot.mode.step c following).2 = next.mode ∧
      ((spot.mode.step c following).1 = .code → joins c = true) := by
  cases spot with
  | between =>
    simp only [Spot.step?] at step
    split at step
    · rename_i quote
      obtain rfl : c = '"' := by simpa using quote
      cases step
      exact ⟨rfl, by simp [Spot.mode, Lexis.Mode.step, Lexis.isQuote]⟩
    · split at step
      · rename_i plain
        cases step
        have code : ∀ c ∈ joiners, ∀ following, Lexis.Mode.code.step c following = (.code, .code) := by
          simp [joiners, Lexis.Mode.step, Lexis.isQuote]
        have same := code c (joinsListed.mp plain) following
        exact ⟨by rw [Spot.mode, same], fun _ => plain⟩
      · contradiction
  | inside escaped =>
    simp only [Spot.step?] at step
    split at step
    · contradiction
    · split at step
      · cases step
        simp_all [Spot.mode, Lexis.Mode.step]
      · split at step
        · cases step
          simp_all [Spot.mode, Lexis.Mode.step]
        · split at step
          · cases step
            simp_all [Spot.mode, Lexis.Mode.step]
          · rename_i quote
            cases step
            have other : '"' ≠ c := fun same => quote (by simp [← same])
            simp_all [Spot.mode, Lexis.Mode.step]

theorem Spot.throughMode {spot last : Spot} {line : List Char} (whole : spot.through? line = some last)
    (offset : Nat) : spot.mode.after none line = last.mode ∧
      ∀ pair ∈ Lexis.kept offset line (spot.mode.classes none line), joins pair.2 = true := by
  induction line generalizing spot offset with
  | nil =>
    cases whole
    exact ⟨rfl, by simp [Lexis.kept]⟩
  | cons c line ih =>
    obtain ⟨next, step, later⟩ := Option.bind_eq_some_iff.mp whole
    obtain ⟨mode, code⟩ := Spot.stepMode step (line.head?.or none)
    obtain ⟨after, kept⟩ := ih later (offset + 1)
    rw [Lexis.Mode.after, Lexis.Mode.classes, mode]
    refine ⟨after, ?_⟩
    rw [Lexis.kept]
    split
    · rename_i here
      exact List.forall_mem_cons.mpr ⟨code here, kept⟩
    · exact kept

end DebugSweep.Json

namespace DebugSweep.Scan
open Json Lexis Text

theorem joinsNoToken {c : Char} (plain : joins c = true) (rest : List Char) : tokenHere (c :: rest) = false := by
  apply List.any_eq_false.mpr
  intro kind _ here
  have letters : ∀ kind : Kind, joiners.all (fun c => kind.token.toList.head?.all (fun t => !sameLetter t c)) = true := by
    intro kind
    cases kind <;> decide +kernel
  obtain ⟨t, token, spelled⟩ := tokenNotEmpty kind
  have apart := List.all_eq_true.mp (letters kind) c (joinsListed.mp plain)
  rw [spelled] at here apart
  obtain ⟨d, tail, starts, same⟩ := dropTokenHead (Option.isSome_of_any here)
  obtain ⟨rfl, -⟩ := List.cons.inj starts
  simp [same] at apart

theorem joinsMentionNone {code : List Char} (plain : ∀ c ∈ code, joins c = true) (before : Option Char) :
    mentions before code = false := by
  induction code generalizing before with
  | nil => rfl
  | cons c rest ih =>
    obtain ⟨here, later⟩ := List.forall_mem_cons.mp plain
    rw [mentions, joinsNoToken here, ih later]
    simp

theorem lineQuiet {raw : List Char} (whole : Spot.between.through? raw = some .between) (origin : Origin)
    (number : Int) : line origin number {} raw = ([], {}) := by
  have front : Spot.between.through? (dropEnd '\r' raw) = some .between := by
    obtain ⟨parts, returns⟩ := returnsBehind raw
    refine Spot.throughFront ?_ (parts.symm ▸ whole)
    intro c member
    rw [returns c member]
    decide
  obtain ⟨mode, code⟩ := Spot.throughMode front 0
  have plain : ∀ c ∈ (codeOf (dropEnd '\r' raw) {}).text, joins c = true := by
    intro c member
    obtain ⟨pair, inside, rfl⟩ := List.mem_map.mp member
    rw [codeChars, classifyReads] at inside
    exact code pair inside
  have exit : (codeOf (dropEnd '\r' raw) {}).exit = {} := by
    change (classify (dropEnd '\r' raw) {}).exit = {}
    rw [classifyReads]
    exact congrArg Mode.exit mode
  unfold line
  simp only [mentionsToken, joinsMentionNone plain, exit]
  rfl

theorem textQuiet {source : List Char} (whole : Spot.between.through? source = some .between) (origin : Origin) :
    text origin source = [] := by
  obtain ⟨first, rest, parts, start, others⟩ := Spot.throughLines whole
  have quiet : ∀ raws : List (List Char), (∀ raw ∈ raws, Spot.between.through? raw = some .between) →
      ∀ number, linesFrom origin number {} [] raws = [] := by
    intro raws
    induction raws with
    | nil => exact fun _ _ => rfl
    | cons raw raws ih =>
      intro every number
      obtain ⟨here, later⟩ := List.forall_mem_cons.mp every
      rw [linesFrom, lineQuiet here]
      exact ih later (number + 1)
  rw [text, parts]
  exact quiet _ (List.forall_mem_cons.mpr ⟨start, others⟩) 1

end DebugSweep.Scan

namespace DebugSweep.Store
open Json

theorem loadedQuiet {d : Disk} {p : AbsPath} {content : ByteArray} {mtime : Int} {texts : List String} {what : String}
    (loaded : load d p what = .ok texts) (file : d.get? p = some (.file content mtime)) (origin : Scan.Origin) :
    Scan.text origin (Source.textOf content) = [] := by
  unfold load at loaded
  rw [file] at loaded
  obtain ⟨v, accepted, rest⟩ := bindOkIff.mp loaded
  split at rest
  · rename_i texts' plain
    obtain ⟨s, given, written⟩ := bindOkIff.mp accepted
    have decoded : Text.decode? content = some s := by
      simp only [Files.readText, Disk.read, Disk.find, file] at given
      cases valid : Text.decode? content with
      | none => simp [valid, Except.mapError, bind, Except.bind, pure, Except.pure, throw, throwThe,
          MonadExceptOf.throw] at given
      | some text => simpa [valid, Except.mapError, bind, Except.bind, pure, Except.pure] using given
    have listed : Json.read s = .ok v := mapErrorOk written
    rw [Source.textOf, Clear.decodeLossyValid decoded]
    exact Scan.textQuiet (Spot.throughEndings false (listThrough listed plain)) origin
  · contradiction

end DebugSweep.Store
