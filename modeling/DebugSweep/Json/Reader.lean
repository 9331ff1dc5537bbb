import DebugSweep.Number.Binary64
import DebugSweep.Text.Hex
import DebugSweep.Value

/-! Values from JSON text. Beside the grammar, the words `NaN`, `Infinity` and `-Infinity` stand
for numbers; of two fields of one name the later value is kept at the earlier place. -/
namespace DebugSweep.Json

abbrev Read (α : Type) := Except ReadError (α × List Char)

def isSpace (c : Char) : Bool := c == ' ' || c == '\n' || c == '\t' || c == '\r'

def skipSpace (text : List Char) : List Char := text.dropWhile isSpace

def dropWord? : (word text : List Char) → Option (List Char)
  | [], text => some text
  | _ :: _, [] => none
  | w :: word, c :: text => if w = c then dropWord? word text else none

def isDigit (c : Char) : Bool := '0' ≤ c && c ≤ '9'

def natOf (digits : List Char) : Nat :=
  digits.foldl (fun total c => total * 10 + (c.toNat - 0x30)) 0

def readUnit? : List Char → Option (Nat × List Char)
  | a :: b :: c :: d :: rest => (Text.ofHex? [a, b, c, d]).map (·, rest)
  | _ => none

def isHighUnit (unit : Nat) : Bool := 0xd800 ≤ unit && unit < 0xdc00

def isLowUnit (unit : Nat) : Bool := 0xdc00 ≤ unit && unit < 0xe000

/-- A unit outside the pairs is a character by itself; half of a pair alone is none and is
replaced. -/
def unitChar (unit : Nat) : Char :=
  if isHighUnit unit || isLowUnit unit then Char.ofNat 0xfffd else Char.ofNat unit

def readCode? (text : List Char) : Option (Char × List Char) := do
  let (unit, rest) ← readUnit? text
  if isHighUnit unit then
    match rest with
    | '\\' :: 'u' :: more =>
        match readUnit? more with
        | some (low, rest') =>
            if isLowUnit low then
              return (Char.ofNat (0x10000 + (unit - 0xd800) * 0x400 + (low - 0xdc00)), rest')
            else return (unitChar unit, rest)
        | none => return (unitChar unit, rest)
    | _ => return (unitChar unit, rest)
  else return (unitChar unit, rest)

def escapeOf? (c : Char) : Option Char :=
  if c == '"' || c == '\\' || c == '/' then some c
  else if c == 'b' then some (Char.ofNat 8)
  else if c == 'f' then some (Char.ofNat 12)
  else if c == 'n' then some '\n'
  else if c == 'r' then some '\r'
  else if c == 't' then some '\t'
  else none

def readChars (fuel : Nat) (done : List Char) (text : List Char) : Read String :=
  match fuel, text with
  | _, [] => .error .malformed
  | 0, _ => .error .malformed
  | fuel + 1, c :: rest =>
      if c == '"' then .ok (String.ofList done.reverse, rest)
      else if c == '\\' then
        match rest with
        | [] => .error .malformed
        | e :: rest' =>
            if e == 'u' then
              match readCode? rest' with
              | some (ch, rest'') => readChars fuel (ch :: done) rest''
              | none => .error .malformed
            else
              match escapeOf? e with
              | some ch => readChars fuel (ch :: done) rest'
              | none => .error .malformed
      else if c.toNat < 0x20 then .error .malformed
      else readChars fuel (c :: done) rest

def readFraction (text : List Char) : Option (List Char) × List Char :=
  match text with
  | '.' :: rest =>
      let digits := rest.takeWhile isDigit
      if digits.isEmpty then (none, text) else (some digits, rest.dropWhile isDigit)
  | _ => (none, text)

def readExponent (text : List Char) : Option Int × List Char :=
  match text with
  | e :: rest =>
      if e == 'e' || e == 'E' then
        let (negative, body) := match rest with
          | '-' :: body => (true, body)
          | '+' :: body => (false, body)
          | body => (false, body)
        let digits := body.takeWhile isDigit
        if digits.isEmpty then (none, text)
        else
          let size : Int := natOf digits
          (some (if negative then -size else size), body.dropWhile isDigit)
      else (none, text)
  | [] => (none, text)

def digitLimit : Nat := 4300

def readNumber (negative : Bool) (text : List Char) : Read Value :=
  let whole := match text with
    | '0' :: _ => ['0']
    | _ => text.takeWhile isDigit
  let rest := text.drop whole.length
  if whole.isEmpty then .error .malformed else
    let (fraction, rest₁) := readFraction rest
    let (exponent, rest₂) := readExponent rest₁
    if fraction.isNone && exponent.isNone then
      if digitLimit < whole.length then .error (.longNumber whole.length)
      else
        let size : Int := natOf whole
        .ok (.int (if negative then -size else size), rest₂)
    else
      let places := fraction.getD []
      let bits := Binary64.ofDecimal (natOf (whole ++ places)) (exponent.getD 0 - places.length)
      .ok (.real (if negative then Binary64.negate bits else bits), rest₂)

def words : List (String × Value) :=
  [("null", .null), ("true", .bool true), ("false", .bool false), ("NaN", .real Binary64.quietNaN),
   ("Infinity", .real Binary64.infinity), ("-Infinity", .real (Binary64.negate Binary64.infinity))]

def readWord? (text : List Char) : Option (Value × List Char) :=
  words.findSome? (fun (word, value) => (dropWord? word.toList text).map (value, ·))

mutual
def readValue (fuel : Nat) (text : List Char) : Read Value :=
  match fuel with
  | 0 => .error .malformed
  | fuel + 1 =>
      match readWord? text with
      | some found => .ok found
      | none =>
          match text with
          | '"' :: rest => (readChars (rest.length + 1) [] rest).map (fun (s, r) => (.text s, r))
          | '[' :: rest =>
              match skipSpace rest with
              | ']' :: rest' => .ok (.list [], rest')
              | rest' => readItems fuel [] rest'
          | '\x7b' :: rest =>
              match skipSpace rest with
              | '\x7d' :: rest' => .ok (.record [], rest')
              | rest' => readFields fuel [] rest'
          | '-' :: rest => readNumber true rest
          | _ => readNumber false text

def readItems (fuel : Nat) (done : List Value) (text : List Char) : Read Value :=
  match fuel with
  | 0 => .error .malformed
  | fuel + 1 =>
      match readValue fuel text with
      | .error e => .error e
      | .ok (item, rest) =>
          match skipSpace rest with
          | ']' :: rest' => .ok (.list (item :: done).reverse, rest')
          | ',' :: rest' => readItems fuel (item :: done) (skipSpace rest')
          | _ => .error .malformed

def readFields (fuel : Nat) (done : List (String × Value)) (text : List Char) : Read Value :=
  match fuel with
  | 0 => .error .malformed
  | fuel + 1 =>
      match text with
      | '"' :: rest =>
          match readChars (rest.length + 1) [] rest with
          | .error e => .error e
          | .ok (name, rest₁) =>
              match skipSpace rest₁ with
              | ':' :: rest₂ =>
                  match readValue fuel (skipSpace rest₂) with
                  | .error e => .error e
                  | .ok (value, rest₃) =>
                      let fields := Value.setIn name value done
                      match skipSpace rest₃ with
                      | '\x7d' :: rest₄ => .ok (.record fields, rest₄)
                      | ',' :: rest₄ => readFields fuel fields (skipSpace rest₄)
                      | _ => .error .malformed
              | _ => .error .malformed
      | _ => .error .malformed
end

def read (text : String) : Except ReadError Value :=
  let chars := skipSpace text.toList
  match readValue (2 * chars.length + 2) chars with
  | .error e => .error e
  | .ok (value, rest) => if (skipSpace rest).isEmpty then .ok value else .error .malformed

end DebugSweep.Json
