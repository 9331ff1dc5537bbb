import DebugSweep.Json.Writer
import DebugSweep.Proofs.Transparency

/-! JSON on one line. Main statement: a value that is written as one line holds no control character, and so no
line break. -/
namespace DebugSweep.Text

def Shown (text : List Char) : Prop := ∀ c ∈ text, 0x20 ≤ c.toNat

instance (text : List Char) : Decidable (Shown text) := List.decidableBAll (fun (c : Char) => 0x20 ≤ c.toNat) text

theorem Shown.append {text more : List Char} (front : Shown text) (back : Shown more) : Shown (text ++ more) :=
  fun c member => (List.mem_append.mp member).elim (front c) (back c)

theorem Shown.cons {c : Char} {text : List Char} (here : 0x20 ≤ c.toNat) (later : Shown text) : Shown (c :: text) :=
  List.forall_mem_cons.mpr ⟨here, later⟩

theorem Shown.among {text part : List Char} (shown : Shown text) (among : part ⊆ text) : Shown part :=
  fun c member => shown c (among member)

theorem Shown.free {text : List Char} (shown : Shown text) {c : Char} (control : c.toNat < 0x20) : c ∉ text :=
  fun member => absurd (shown c member) (Nat.not_le.mpr control)

theorem digitsShown (n : Nat) : Shown (Nat.toDigits 10 n) := by
  intro c member
  have digit : c.isDigit = true := Nat.isDigit_of_mem_toDigits (by decide) (by decide) member
  have above : 0x30 ≤ c.toNat := by
    simp only [Char.isDigit, Bool.and_eq_true, decide_eq_true_eq] at digit
    exact digit.1
  omega

end DebugSweep.Text

namespace DebugSweep.Binary64
open Text

theorem zerosShown (n : Nat) : Shown (zeros n) := by
  intro c member
  rw [List.eq_of_mem_replicate member]
  decide

theorem exponentShown (exponent : Int) : Shown (exponentText exponent) := by
  have digits := (zerosShown (2 - (Nat.toDigits 10 exponent.natAbs).length)).append (digitsShown exponent.natAbs)
  refine .cons (by decide) (.cons ?_ digits)
  split <;> decide

theorem layOutShown {digits : List Char} (shown : Shown digits) (exponent : Int) : Shown (layOut digits exponent) := by
  have power := exponentShown exponent
  unfold layOut
  split
  · split
    · exact .cons (shown _ List.mem_cons_self) power
    · rename_i d rest _
      have later := shown.among (List.subset_cons_self d rest)
      exact .cons (shown _ List.mem_cons_self) (.cons (by decide) (later.append power))
    · decide
  · split
    · exact .cons (by decide) (.cons (by decide) ((zerosShown _).append shown))
    · dsimp only
      split
      · exact (shown.append (zerosShown _)).append (by decide)
      · exact (shown.among (List.take_subset _ _)).append (.cons (by decide) (shown.among (List.drop_subset _ _)))

theorem textShown (bits : UInt64) : Shown (text bits) := by
  have magnitude : Shown (magnitudeText bits) := by
    unfold magnitudeText
    split
    · decide
    · exact layOutShown (digitsShown _) _
  unfold text
  split
  · exact .cons (by decide) magnitude
  · exact magnitude

end DebugSweep.Binary64

namespace DebugSweep.Json
open Text

def Inline (s : String) : Prop := '\n' ∉ s.toList

instance (s : String) : Decidable (Inline s) := inferInstanceAs (Decidable (¬ _))

def Printed (s : String) : Prop := Shown s.toList

instance (s : String) : Decidable (Printed s) := inferInstanceAs (Decidable (Shown _))

theorem Printed.append {s t : String} (left : Printed s) (right : Printed t) : Printed (s ++ t) := by
  unfold Printed
  rw [String.toList_append]
  exact Shown.append left right

theorem unitPrinted (unit : Nat) : Printed (unitText unit) := by
  have digit : ∀ n < 16, 0x20 ≤ (Text.hexDigit n).toNat := by decide
  have digits : Shown (Text.hexDigits 4 unit) := by
    intro c member
    obtain ⟨place, -, rfl⟩ := List.mem_map.mp member
    exact digit _ (Nat.mod_lt _ (by decide))
  unfold Printed unitText
  rw [String.toList_ofList]
  exact .cons (by decide) (.cons (by decide) digits)

theorem pointPrinted (point : Nat) : Printed (pointText point) := by
  unfold pointText
  split
  · exact unitPrinted _
  · exact (unitPrinted _).append (unitPrinted _)

theorem charPrinted (ascii : Bool) (c : Char) : Printed (charText ascii c) := by
  unfold charText
  split
  · decide
  split
  · decide
  split
  · decide
  split
  · decide
  split
  · decide
  split
  · decide
  split
  · decide
  split
  · exact pointPrinted _
  rename_i shown
  intro d member
  obtain rfl : d = c := by simpa using member
  simp only [Bool.or_eq_true, decide_eq_true_eq, not_or, Nat.not_lt] at shown
  exact shown.1

theorem stringPrinted (ascii : Bool) (s : String) : Printed (stringText ascii s) := by
  have folded : ∀ (chars : List Char) (out : String), Printed out →
      Printed (chars.foldl (fun out c => out ++ charText ascii c) out) := by
    intro chars
    induction chars with
    | nil => exact fun out printed => printed
    | cons c rest ih => exact fun out printed => ih _ (printed.append (charPrinted ascii c))
  exact (folded s.toList "\"" (by decide)).append (by decide)

theorem intPrinted (n : Int) : Printed (toString n) := by
  unfold Printed
  cases n with
  | ofNat n =>
    change Shown (toString (n : Int)).toList
    rw [natText]
    exact digitsShown n
  | negSucc n =>
    rw [negativeText]
    exact .cons (by decide) (digitsShown _)

theorem realPrinted (bits : UInt64) : Printed (realText bits) := by
  unfold realText
  split
  · decide
  split
  · split <;> decide
  unfold Printed
  rw [String.toList_ofList]
  exact Binary64.textShown bits

theorem lineBreakPrinted (level : Nat) : Printed (Style.line.lineBreak level) := by
  unfold Printed
  simp [Style.lineBreak, Style.line, Shown]

theorem commaPrinted (level : Nat) : Printed (Style.line.comma level) := by
  have same : Style.line.comma level = ", " := rfl
  rw [same]
  decide

mutual
theorem emitPrinted (level : Nat) {out : String} (before : Printed out) (value : Value) :
    Printed (emit Style.line level out value) := by
  match value with
  | .null => exact before.append (by decide)
  | .bool true => exact before.append (by decide)
  | .bool false => exact before.append (by decide)
  | .int n => exact before.append (intPrinted n)
  | .real bits => exact before.append (realPrinted bits)
  | .text s => exact before.append (stringPrinted _ s)
  | .moment s => exact before.append (stringPrinted _ s)
  | .list [] => exact before.append (by decide)
  | .list (item :: items) =>
    have opened := (before.append (by decide : Printed "[")).append (lineBreakPrinted (level + 1))
    have inside := emitItemsPrinted (level + 1) (emitPrinted (level + 1) opened item) items
    rw [emit]
    exact (inside.append (lineBreakPrinted level)).append (by decide)
  | .record [] => exact before.append (by decide)
  | .record ((name, value) :: fields) =>
    have opened := (before.append (by decide : Printed "\x7b")).append (lineBreakPrinted (level + 1))
    have named := (opened.append (stringPrinted Style.line.ascii name)).append (by decide : Printed ": ")
    have inside := emitFieldsPrinted (level + 1) (emitPrinted (level + 1) named value) fields
    rw [emit]
    exact (inside.append (lineBreakPrinted level)).append (by decide)

theorem emitItemsPrinted (level : Nat) {out : String} (before : Printed out) (items : List Value) :
    Printed (emitItems Style.line level out items) := by
  match items with
  | [] => exact before
  | item :: rest =>
    rw [emitItems]
    exact emitItemsPrinted level (emitPrinted level (before.append (commaPrinted level)) item) rest

theorem emitFieldsPrinted (level : Nat) {out : String} (before : Printed out) (fields : List (String × Value)) :
    Printed (emitFields Style.line level out fields) := by
  match fields with
  | [] => exact before
  | (name, value) :: rest =>
    have named := ((before.append (commaPrinted level)).append (stringPrinted Style.line.ascii name)).append
      (by decide : Printed ": ")
    rw [emitFields]
    exact emitFieldsPrinted level (emitPrinted level named value) rest
end

theorem writePrinted (value : Value) : Printed (write Style.line value) :=
  emitPrinted 0 (by decide) _

theorem writeInline (value : Value) : Inline (write Style.line value) :=
  Shown.free (writePrinted value) (by decide)

end DebugSweep.Json
