import DebugSweep.Json.Reader
import DebugSweep.Time

/-! Scalar values of configuration text: strings, numbers, dates and times. -/
namespace DebugSweep.Toml
open Json (isDigit natOf dropWord? digitLimit)

abbrev Read (α : Type) := Except ReadError (α × List Char)

def malformed : Except ReadError α := .error .malformed

def isSpace (c : Char) : Bool := c == ' ' || c == '\t'

def skipSpace (text : List Char) : List Char := text.dropWhile isSpace

def isSpaceOrBreak (c : Char) : Bool := isSpace c || c == '\n'

def isControl (c : Char) : Bool := c.toNat < 0x20 || c.toNat == 0x7f

def isIllegal (c : Char) : Bool := isControl c && c != '\t'

def isIllegalInLines (c : Char) : Bool := isIllegal c && c != '\n'

def escapeOf? (c : Char) : Option Char :=
  if c == 'b' then some (Char.ofNat 8)
  else if c == 't' then some '\t'
  else if c == 'n' then some '\n'
  else if c == 'f' then some (Char.ofNat 12)
  else if c == 'r' then some '\r'
  else if c == '"' || c == '\\' then some c
  else none

def readPoint (count : Nat) (text : List Char) : Read Char :=
  let digits := text.take count
  if digits.length != count then malformed
  else
    match Text.ofHex? digits with
    | none => malformed
    | some n =>
        if n < 0xd800 || (0xe000 ≤ n && n < 0x110000) then .ok (Char.ofNat n, text.drop count)
        else malformed

def dropLineEnd? (text : List Char) : Option (List Char) :=
  match skipSpace text with
  | [] => some []
  | c :: rest => if c == '\n' then some (rest.dropWhile isSpaceOrBreak) else none

def readEscape (multiline : Bool) (text : List Char) : Read (List Char) :=
  match text with
  | [] => malformed
  | c :: rest =>
      if multiline && isSpaceOrBreak c then
        match dropLineEnd? text with
        | some rest' => .ok ([], rest')
        | none => malformed
      else if c == 'u' then (readPoint 4 rest).map (fun (ch, r) => ([ch], r))
      else if c == 'U' then (readPoint 8 rest).map (fun (ch, r) => ([ch], r))
      else
        match escapeOf? c with
        | some ch => .ok ([ch], rest)
        | none => malformed

def readBasic (multiline : Bool) : Nat → List Char → List Char → Read (List Char)
  | 0, _, _ => malformed
  | _ + 1, _, [] => malformed
  | fuel + 1, done, c :: rest =>
      if c == '"' then
        if !multiline then .ok (done.reverse, rest)
        else
          match dropWord? ['"', '"'] rest with
          | some rest' => .ok (done.reverse, rest')
          | none => readBasic multiline fuel (c :: done) rest
      else if c == '\\' then
        match readEscape multiline rest with
        | .ok (chars, rest') => readBasic multiline fuel (chars.reverse ++ done) rest'
        | .error e => .error e
      else if if multiline then isIllegalInLines c else isIllegal c then malformed
      else readBasic multiline fuel (c :: done) rest

def readLiteralLines (done : List Char) : List Char → Read (List Char)
  | [] => malformed
  | c :: rest =>
      match c, rest with
      | '\'', '\'' :: '\'' :: rest' =>
          if done.any isIllegalInLines then malformed else .ok (done.reverse, rest')
      | _, _ => readLiteralLines (c :: done) rest

def readLiteral (text : List Char) : Read (List Char) :=
  let chars := text.takeWhile (· != '\'')
  match text.drop chars.length with
  | _ :: rest => if chars.any isIllegal then malformed else .ok (chars, rest)
  | [] => malformed

/-- Up to two more quotes right behind the end of a string of several lines belong to it. -/
def takeQuotes (quote : Char) : Nat → List Char → List Char → List Char × List Char
  | 0, done, text => (done, text)
  | more + 1, done, text =>
      match text with
      | c :: rest => if c == quote then takeQuotes quote more (done ++ [c]) rest else (done, text)
      | [] => (done, text)

def dropFirstBreak : List Char → List Char
  | '\n' :: rest => rest
  | text => text

def readString (text : List Char) : Read String :=
  let ofChars := fun (r : List Char × List Char) => (String.ofList r.1, r.2)
  match text with
  | '"' :: '"' :: '"' :: rest =>
      let body := dropFirstBreak rest
      (readBasic true (body.length + 1) [] body).map (fun (chars, r) => ofChars (takeQuotes '"' 2 chars r))
  | '"' :: rest => (readBasic false (rest.length + 1) [] rest).map ofChars
  | '\'' :: '\'' :: '\'' :: rest =>
      (readLiteralLines [] (dropFirstBreak rest)).map (fun (chars, r) => ofChars (takeQuotes '\'' 2 chars r))
  | '\'' :: rest => (readLiteral rest).map ofChars
  | _ => malformed

def readLineString (text : List Char) : Read String :=
  let ofChars := fun (r : List Char × List Char) => (String.ofList r.1, r.2)
  match text with
  | '"' :: rest => (readBasic false (rest.length + 1) [] rest).map ofChars
  | '\'' :: rest => (readLiteral rest).map ofChars
  | _ => malformed

/-- Further digits, between any two of which one underscore may stand. -/
def moreDigits (digit : Char → Bool) (done : List Char) : List Char → List Char × List Char
  | [] => (done.reverse, [])
  | c :: rest =>
      if digit c then moreDigits digit (c :: done) rest
      else if c == '_' && rest.head?.any digit then moreDigits digit done rest
      else (done.reverse, c :: rest)

def digits? (digit : Char → Bool) (text : List Char) : Option (List Char × List Char) :=
  if text.head?.any digit then some (moreDigits digit [] text) else none

def inBase (base : Nat) (digits : List Char) : Nat :=
  digits.foldl (fun total c => total * base + (Text.hexValue? c).getD 0) 0

def readBased? (text : List Char) : Option (Value × List Char) :=
  let read := fun (base : Nat) (rest : List Char) =>
    (digits? (fun c => (Text.hexValue? c).any (· < base)) rest).map
      (fun (digits, r) => (Value.int (inBase base digits), r))
  match text with
  | '0' :: 'x' :: rest => read 16 rest
  | '0' :: 'b' :: rest => read 2 rest
  | '0' :: 'o' :: rest => read 8 rest
  | _ => none

def signOf : List Char → Bool × List Char
  | '-' :: rest => (true, rest)
  | '+' :: rest => (false, rest)
  | text => (false, text)

def readDecimal? (text : List Char) : Option (Except ReadError (Value × List Char)) := do
  let (negative, body) := signOf text
  let (whole, rest) ← match body with
    | '0' :: rest => some (['0'], rest)
    | _ => digits? isDigit body
  let (places, rest₁) := match rest with
    | '.' :: r => match digits? isDigit r with
      | some (d, r') => (some d, r')
      | none => (none, rest)
    | _ => (none, rest)
  let (exponent, rest₂) := match rest₁ with
    | e :: r =>
        if e == 'e' || e == 'E' then
          let (down, r') := signOf r
          match digits? isDigit r' with
          | some (d, r'') =>
              let size : Int := natOf d
              (some (if down then -size else size), r'')
          | none => (none, rest₁)
        else (none, rest₁)
    | [] => (none, rest₁)
  if places.isNone && exponent.isNone then
    if digitLimit < whole.length then some (.error (.longNumber whole.length))
    else
      let size : Int := natOf whole
      some (.ok (.int (if negative then -size else size), rest₂))
  else
    let fraction := places.getD []
    let bits := Binary64.ofDecimal (natOf (whole ++ fraction)) (exponent.getD 0 - fraction.length)
    some (.ok (.real (if negative then Binary64.negate bits else bits), rest₂))

def readSpecial? (text : List Char) : Option (Value × List Char) :=
  let (negative, body) := signOf text
  let signed := fun bits => Value.real (if negative then Binary64.negate bits else bits)
  match dropWord? "inf".toList body with
  | some rest => some (signed Binary64.infinity, rest)
  | none => (dropWord? "nan".toList body).map (signed Binary64.quietNaN, ·)

def twoDigits? (low high : Nat) : List Char → Option (Nat × List Char)
  | a :: b :: rest =>
      if isDigit a && isDigit b then
        let n := natOf [a, b]
        if low ≤ n && n ≤ high then some (n, rest) else none
      else none
  | _ => none

def dropChar? (c : Char) : List Char → Option (List Char)
  | d :: rest => if c == d then some rest else none
  | [] => none

def dropTime? (text : List Char) : Option (List Char) := do
  let (_, rest) ← twoDigits? 0 23 text
  let (_, rest) ← twoDigits? 0 59 (← dropChar? ':' rest)
  let (_, rest) ← twoDigits? 0 59 (← dropChar? ':' rest)
  match rest with
  | '.' :: r => if r.head?.any isDigit then some (r.dropWhile isDigit) else some rest
  | _ => some rest

def dropZone (text : List Char) : List Char :=
  match text with
  | c :: rest =>
      if c == 'Z' || c == 'z' then rest
      else if c == '+' || c == '-' then
        (do
          let (_, r) ← twoDigits? 0 23 rest
          let (_, r) ← twoDigits? 0 59 (← dropChar? ':' r)
          return r).getD text
      else text
  | [] => text

def dropDayTime (text : List Char) : List Char :=
  match text with
  | c :: rest =>
      if c == 'T' || c == 't' || c == ' ' then
        match dropTime? rest with
        | some r => dropZone r
        | none => text
      else text
  | [] => text

def daysIn (year month : Nat) : Nat :=
  ((Time.monthLengths (Time.isLeap year))[month - 1]?).getD 0

/-- A date with its rest; the year, month and day have the shape of a date but may name none. -/
def date? (text : List Char) : Option ((Nat × Nat × Nat) × List Char) := do
  let digits := text.take 4
  if digits.length == 4 && digits.all isDigit then
    let (month, rest) ← twoDigits? 1 12 (← dropChar? '-' (text.drop 4))
    let (day, rest) ← twoDigits? 1 31 (← dropChar? '-' rest)
    return ((natOf digits, month, day), rest)
  else none

def consumed (text rest : List Char) : String := String.ofList (text.take (text.length - rest.length))

def readMoment? (text : List Char) : Option (Except ReadError (Value × List Char)) :=
  match date? text with
  | some ((year, month, day), rest) =>
      if year == 0 || daysIn year month < day then some malformed
      else
        let rest' := dropDayTime rest
        some (.ok (.moment (consumed text rest'), rest'))
  | none => (dropTime? text).map (fun rest => .ok (.moment (consumed text rest), rest))

end DebugSweep.Toml
