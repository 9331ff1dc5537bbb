import DebugSweep.Proofs.ClearedFiles
import DebugSweep.Proofs.Discretion
import DebugSweep.Store.ListFile

/-! Lists of texts in JSON files. Main statement: a list that is saved is loaded as it was, whatever
characters its texts hold. -/
namespace DebugSweep.Text

theorem hexDigitRead : ∀ n < 16, hexValue? (hexDigit n) = some n := by decide

theorem hexDigitsRead {n : Nat} (small : n < 0x10000) : ofHex? (hexDigits 4 n) = some n := by
  have digit (place : Nat) := hexDigitRead (n / place % 16) (Nat.mod_lt _ (by decide))
  have whole : ((n / 4096 % 16 * 16 + n / 256 % 16) * 16 + n / 16 % 16) * 16 + n / 1 % 16 = n := by omega
  have spelled : hexDigits 4 n = [hexDigit (n / 4096 % 16), hexDigit (n / 256 % 16), hexDigit (n / 16 % 16),
    hexDigit (n / 1 % 16)] := rfl
  simp [spelled, ofHex?, digit, -Nat.div_one]
  simpa using whole

end DebugSweep.Text

namespace DebugSweep.Json
open Text

theorem unitRead {n : Nat} (small : n < 0x10000) (rest : List Char) :
    readUnit? (hexDigits 4 n ++ rest) = some (n, rest) := by
  have spelled : hexDigits 4 n ++ rest = hexDigit (n / 4096 % 16) :: hexDigit (n / 256 % 16) ::
    hexDigit (n / 16 % 16) :: hexDigit (n / 1 % 16) :: rest := rfl
  rw [spelled, readUnit?]
  exact congrArg (Option.map (·, rest)) (hexDigitsRead small)

theorem charOutsidePairs (c : Char) : isHighUnit c.toNat = false ∧ isLowUnit c.toNat = false := by
  have valid : c.toNat < 0xd800 ∨ 0xdfff < c.toNat ∧ c.toNat < 0x110000 := c.valid
  simp only [isHighUnit, isLowUnit, Bool.and_eq_false_iff, decide_eq_false_iff_not]
  omega

theorem pairRead {high low : Nat} (first : isHighUnit high = true) (second : isLowUnit low = true)
    (rest : List Char) : readCode? (hexDigits 4 high ++ '\\' :: 'u' :: (hexDigits 4 low ++ rest)) =
      some (Char.ofNat (0x10000 + (high - 0xd800) * 0x400 + (low - 0xdc00)), rest) := by
  have bounds : high < 0xdc00 ∧ low < 0xe000 := by
    simp only [isHighUnit, isLowUnit, Bool.and_eq_true, decide_eq_true_eq] at first second
    exact ⟨first.2, second.2⟩
  rw [readCode?, unitRead (Nat.lt_trans bounds.1 (by decide))]
  simp only [Option.bind_eq_bind, Option.bind_some, first, if_true]
  rw [unitRead (Nat.lt_trans bounds.2 (by decide))]
  simp only [second, if_true]
  rfl

-- A character by its code: one unit, or two where one does not suffice.
theorem codeRead (c : Char) (rest : List Char) :
    ∃ code, (pointText c.toNat).toList = '\\' :: 'u' :: code ∧ readCode? (code ++ rest) = some (c, rest) := by
  obtain ⟨high, low⟩ := charOutsidePairs c
  unfold pointText
  split
  · rename_i small
    refine ⟨hexDigits 4 c.toNat, by simp [unitText], ?_⟩
    simp [readCode?, unitRead small, high, low, unitChar]
  · rename_i large
    have bound : c.toNat < 0x110000 := by
      rcases c.valid with small | ⟨-, small⟩
      · exact Nat.lt_trans small (by decide)
      · exact small
    have first : isHighUnit (0xd800 + (c.toNat - 0x10000) / 0x400) = true := by
      simp only [isHighUnit, Bool.and_eq_true, decide_eq_true_eq]
      omega
    have second : isLowUnit (0xdc00 + (c.toNat - 0x10000) % 0x400) = true := by
      simp only [isLowUnit, Bool.and_eq_true, decide_eq_true_eq]
      omega
    have joined : 0x10000 + (0xd800 + (c.toNat - 0x10000) / 0x400 - 0xd800) * 0x400 +
        (0xdc00 + (c.toNat - 0x10000) % 0x400 - 0xdc00) = c.toNat := by omega
    generalize 0xd800 + (c.toNat - 0x10000) / 0x400 = front at first joined ⊢
    generalize 0xdc00 + (c.toNat - 0x10000) % 0x400 = back at second joined ⊢
    refine ⟨hexDigits 4 front ++ '\\' :: 'u' :: hexDigits 4 back, by simp [unitText], ?_⟩
    rw [List.append_assoc, List.cons_append, List.cons_append, pairRead first second, joined, Char.ofNat_toNat]

theorem charRead (fuel : Nat) (done : List Char) (c : Char) (rest : List Char) :
    readChars (fuel + 1) done ((charText true c).toList ++ rest) = readChars fuel (c :: done) rest := by
  unfold charText
  split
  · simp_all [readChars, escapeOf?]
  split
  · simp_all [readChars, escapeOf?]
  split
  · simp_all [readChars, escapeOf?]
  split
  · simp_all [readChars, escapeOf?]
  split
  · simp_all [readChars, escapeOf?]
  split
  · rename_i feed
    obtain rfl : c = Char.ofNat 12 := by
      rw [← Char.ofNat_toNat c]
      simpa using congrArg Char.ofNat (beq_iff_eq.mp feed)
    rfl
  split
  · rename_i back
    obtain rfl : c = Char.ofNat 8 := by
      rw [← Char.ofNat_toNat c]
      simpa using congrArg Char.ofNat (beq_iff_eq.mp back)
    rfl
  split
  · obtain ⟨code, spelled, read⟩ := codeRead c rest
    simp [spelled, readChars, read]
  · rename_i quote slash _ _ _ _ _ shown
    have printed : ¬ c.toNat < 0x20 := by
      intro small
      simp [small] at shown
    simp [readChars, quote, slash, printed]

theorem charsRead {text : List Char} {fuel : Nat} (enough : text.length < fuel) (done rest : List Char) :
    readChars fuel done (text.flatMap (fun c => (charText true c).toList) ++ '"' :: rest) =
      .ok (String.ofList (done.reverse ++ text), rest) := by
  induction text generalizing fuel done with
  | nil =>
    obtain ⟨fuel, rfl⟩ := Nat.exists_eq_succ_of_ne_zero (Nat.ne_of_gt enough)
    simp [readChars]
  | cons c text ih =>
    obtain ⟨fuel, rfl⟩ := Nat.exists_eq_succ_of_ne_zero (Nat.ne_of_gt (Nat.zero_lt_of_lt enough))
    rw [List.flatMap_cons, List.append_assoc, charRead, ih (by simpa using enough)]
    simp

theorem stringChars (ascii : Bool) (s : String) :
    (stringText ascii s).toList = '"' :: s.toList.flatMap (fun c => (charText ascii c).toList) ++ ['"'] := by
  have gathered : ∀ (chars : List Char) (out : String),
      (chars.foldl (fun out c => out ++ charText ascii c) out).toList =
        out.toList ++ chars.flatMap (fun c => (charText ascii c).toList) := by
    intro chars
    induction chars with
    | nil => simp
    | cons c chars ih =>
      intro out
      simp [ih]
  rw [stringText, String.toList_append, gathered]
  rfl

theorem charTextLong (ascii : Bool) (c : Char) : 0 < (charText ascii c).toList.length := by
  unfold charText pointText unitText
  repeat' split
  all_goals simp

theorem textRead (fuel : Nat) (s : String) (rest : List Char) :
    readValue (fuel + 1) ((stringText true s).toList ++ rest) = .ok (.text s, rest) := by
  have enough : s.toList.length <
      (s.toList.flatMap (fun c => (charText true c).toList) ++ '"' :: rest).length + 1 := by
    have longer : ∀ chars : List Char,
        chars.length ≤ (chars.flatMap (fun c => (charText true c).toList)).length := by
      intro chars
      induction chars with
      | nil => simp
      | cons c chars ih =>
        have one := charTextLong true c
        simp only [List.flatMap_cons, List.length_append, List.length_cons]
        omega
    have whole := longer s.toList
    simp only [List.length_append]
    omega
  have noWord : ∀ text, readWord? ('"' :: text) = none := by
    intro text
    rfl
  rw [stringChars, List.cons_append, List.cons_append, List.append_assoc, readValue, noWord]
  dsimp only
  rw [List.singleton_append, charsRead enough]
  simp [Except.map]

def further (texts : List String) : List Char :=
  texts.flatMap (fun s => ',' :: '\n' :: ' ' :: ' ' :: (stringText true s).toList)

theorem skipSpaceString (s : String) (rest : List Char) :
    skipSpace ('\n' :: ' ' :: ' ' :: (stringText true s).toList ++ rest) = (stringText true s).toList ++ rest := by
  rw [stringChars]
  rfl

theorem itemsRead {texts : List String} {fuel : Nat} (s : String) (enough : texts.length + 2 ≤ fuel)
    (done : List Value) (rest : List Char) :
    readItems fuel done ((stringText true s).toList ++ (further texts ++ '\n' :: ']' :: rest)) =
      .ok (.list (done.reverse ++ (s :: texts).map .text), rest) := by
  induction texts generalizing fuel s done with
  | nil =>
    obtain ⟨fuel, rfl⟩ : ∃ more, fuel = more + 2 := ⟨fuel - 2, by omega⟩
    rw [readItems, textRead]
    simp [further, skipSpace, isSpace]
  | cons next texts ih =>
    obtain ⟨fuel, rfl⟩ : ∃ more, fuel = more + 2 := ⟨fuel - 2, by omega⟩
    have later := @ih (fuel + 1) next (by simpa using enough) (.text s :: done)
    have behind : further (next :: texts) ++ '\n' :: ']' :: rest = ',' :: ('\n' :: ' ' :: ' ' ::
        (stringText true next).toList ++ (further texts ++ '\n' :: ']' :: rest)) := by
      simp [further]
    have comma : ∀ more, skipSpace (',' :: more) = ',' :: more := fun more => rfl
    rw [readItems, textRead, behind]
    dsimp only
    rw [comma]
    simp only [skipSpaceString, later]
    simp

theorem furtherLong (texts : List String) : texts.length ≤ (further texts).length := by
  induction texts with
  | nil => simp
  | cons s texts ih =>
    simp only [further, List.flatMap_cons, List.length_append, List.length_cons] at ih ⊢
    omega

theorem furtherWritten (out : String) (texts : List String) :
    (emitItems Style.page 1 out (texts.map .text)).toList = out.toList ++ further texts := by
  induction texts generalizing out with
  | nil => simp [emitItems, further]
  | cons s texts ih =>
    rw [List.map_cons, emitItems, ih, emit]
    simp [further, Style.comma, Style.lineBreak, Style.page]

theorem listRead {fuel : Nat} {text rest : List Char} {s : String} {texts : List String}
    (written : text = '[' :: ('\n' :: ' ' :: ' ' :: (stringText true s).toList ++ (further texts ++ '\n' :: ']' :: rest)))
    (enough : texts.length + 2 ≤ fuel) :
    readValue (fuel + 1) text = .ok (Value.ofTexts (s :: texts), rest) := by
  have noWord : ∀ more, readWord? ('[' :: more) = none := fun more => rfl
  rw [written, readValue, noWord]
  simp only [skipSpaceString]
  have items := itemsRead s enough [] rest
  rw [stringChars] at items ⊢
  exact items

theorem writtenRead (texts : List String) :
    read (write Style.page (Value.ofTexts texts) ++ "\n") = .ok (Value.ofTexts texts) := by
  cases texts with
  | nil => rfl
  | cons s texts =>
    have written : (write Style.page (Value.ofTexts (s :: texts)) ++ "\n").toList =
        '[' :: ('\n' :: ' ' :: ' ' :: (stringText true s).toList ++ (further texts ++ '\n' :: ']' :: ['\n'])) := by
      have first := furtherWritten ("" ++ "[" ++ Style.page.lineBreak 1 ++ stringText Style.page.ascii s) texts
      have plain : ∀ value, write Style.page value = emit Style.page 0 "" value := fun value => rfl
      simp only [plain, Value.ofTexts, List.map_cons, emit, String.toList_append, first]
      simp [Style.page, Style.lineBreak]
    have size : texts.length + 2 ≤ 2 * (write Style.page (Value.ofTexts (s :: texts)) ++ "\n").toList.length + 1 := by
      have long := furtherLong texts
      rw [written]
      simp only [List.length_cons, List.length_append]
      omega
    have start : skipSpace (write Style.page (Value.ofTexts (s :: texts)) ++ "\n").toList =
        (write Style.page (Value.ofTexts (s :: texts)) ++ "\n").toList := by
      rw [written]
      rfl
    rw [read, start, listRead written size]
    rfl

end DebugSweep.Json

namespace DebugSweep.Store
open Json

theorem savedLoaded {d : Disk} {p : AbsPath} {mtime : Int} {texts : List String} (what : String)
    (file : d.get? p = some (.file (Store.content texts) mtime)) :
    load d p what = .ok texts := by
  have written : Files.readJson d p = .ok (Value.ofTexts texts) := by
    simp only [Files.readJson, Files.readText, Disk.read, Disk.find, file]
    simp only [Store.content, Clear.decodeEncoded, Except.mapError, bind, Except.bind, pure, Except.pure,
      writtenRead]
  have plain : (Value.ofTexts texts).texts? = some texts := Journal.textsRead texts
  simp only [load, file, written, bind, Except.bind, plain, pure, Except.pure]

end DebugSweep.Store
