import DebugSweep.Text.Lines
import DebugSweep.Toml.Scalar

/-! Configuration text in TOML. Statements are read one by one into a record of tables; which
tables may still be opened or changed is kept beside it. -/
namespace DebugSweep.Toml
open Json (dropWord?)

abbrev Key := List String

abbrev Fields := List (String × Value)

def skipComment (text : List Char) : Except ReadError (List Char) :=
  match text with
  | '#' :: rest =>
      let comment := rest.takeWhile (· != '\n')
      if comment.any isIllegal then malformed else .ok (rest.drop comment.length)
  | _ => .ok text

def skipFiller : Nat → List Char → Except ReadError (List Char)
  | 0, text => .ok text
  | fuel + 1, text =>
      let text' := text.dropWhile isSpaceOrBreak
      match text' with
      | '#' :: _ =>
          match skipComment text' with
          | .ok rest => skipFiller fuel rest
          | .error e => .error e
      | _ => .ok text'

def isBareKey (c : Char) : Bool := c.isAlphanum || c == '-' || c == '_'

def readKeyPart (text : List Char) : Read String :=
  match text with
  | [] => malformed
  | c :: _ =>
      if isBareKey c then
        let name := text.takeWhile isBareKey
        .ok (String.ofList name, text.drop name.length)
      else readLineString text

def readKeyRest : Nat → Key → List Char → Read Key
  | 0, _, _ => malformed
  | fuel + 1, done, text =>
      match skipSpace text with
      | '.' :: rest =>
          match readKeyPart (skipSpace rest) with
          | .ok (part, rest') => readKeyRest fuel (done ++ [part]) rest'
          | .error e => .error e
      | rest => .ok (done, rest)

def readKey (text : List Char) : Read Key :=
  match readKeyPart text with
  | .ok (part, rest) => readKeyRest (rest.length + 1) [part] rest
  | .error e => .error e

/-- Changes the table that a key leads to, which is made if it is not there. With `throughLists`
a list of tables stands for its last one. -/
def changeAt (throughLists : Bool) (change : Fields → Except ReadError Fields) :
    Key → Fields → Except ReadError Fields
  | [], fields => change fields
  | name :: key, fields =>
      match Value.fieldIn? name fields with
      | none => do
          let inner ← changeAt throughLists change key []
          return Value.setIn name (.record inner) fields
      | some (.record inner) => do
          let inner' ← changeAt throughLists change key inner
          return Value.setIn name (.record inner') fields
      | some (.list items) =>
          match throughLists, items.getLast? with
          | true, some (.record inner) => do
              let inner' ← changeAt throughLists change key inner
              return Value.setIn name (.list (items.dropLast ++ [.record inner'])) fields
          | _, _ => malformed
      | some _ => malformed

def addNew (name : String) (value : Value) (fields : Fields) : Except ReadError Fields :=
  if (Value.fieldIn? name fields).isSome then malformed else .ok (fields ++ [(name, value)])

def addTable (name : String) (fields : Fields) : Except ReadError Fields :=
  match Value.fieldIn? name fields with
  | none => .ok (fields ++ [(name, .list [.record []])])
  | some (.list items) => .ok (Value.setIn name (.list (items ++ [.record []])) fields)
  | some _ => malformed

def isClosed : Value → Bool
  | .list _ | .record _ => true
  | _ => false

def atOrBelow (keys : List Key) (key : Key) : Bool := keys.any (fun k => k.isPrefixOf key)

mutual
def readValue (fuel : Nat) (text : List Char) : Read Value :=
  match fuel with
  | 0 => malformed
  | fuel + 1 =>
      match text with
      | '"' :: _ => (readString text).map (fun (s, r) => (.text s, r))
      | '\'' :: _ => (readString text).map (fun (s, r) => (.text s, r))
      | '[' :: rest =>
          match skipFiller (rest.length + 1) rest with
          | .error e => .error e
          | .ok (']' :: rest') => .ok (.list [], rest')
          | .ok rest' => readItems fuel [] rest'
      | '\x7b' :: rest =>
          match skipSpace rest with
          | '\x7d' :: rest' => .ok (.record [], rest')
          | rest' => readInline fuel [] [] rest'
      | _ =>
          match dropWord? "true".toList text, dropWord? "false".toList text with
          | some rest, _ => .ok (.bool true, rest)
          | _, some rest => .ok (.bool false, rest)
          | _, _ =>
              match readMoment? text with
              | some found => found
              | none =>
                  match readBased? text with
                  | some found => .ok found
                  | none =>
                      match readDecimal? text with
                      | some found => found
                      | none =>
                          match readSpecial? text with
                          | some found => .ok found
                          | none => malformed

def readItems (fuel : Nat) (done : List Value) (text : List Char) : Read Value :=
  match fuel with
  | 0 => malformed
  | fuel + 1 =>
      match readValue fuel text with
      | .error e => .error e
      | .ok (item, rest) =>
          match skipFiller (rest.length + 1) rest with
          | .error e => .error e
          | .ok (']' :: rest') => .ok (.list (item :: done).reverse, rest')
          | .ok (',' :: rest') =>
              match skipFiller (rest'.length + 1) rest' with
              | .error e => .error e
              | .ok (']' :: rest'') => .ok (.list (item :: done).reverse, rest'')
              | .ok rest'' => readItems fuel (item :: done) rest''
          | .ok _ => malformed

/-- Pairs of an inline table up to its end. `closed` are keys whose values are complete. -/
def readInline (fuel : Nat) (closed : List Key) (done : Fields) (text : List Char) : Read Value :=
  match fuel with
  | 0 => malformed
  | fuel + 1 =>
      match readKey text with
      | .error e => .error e
      | .ok (key, '=' :: rest) =>
          match readValue fuel (skipSpace rest) with
          | .error e => .error e
          | .ok (value, rest') =>
              if atOrBelow closed key then malformed
              else
                match changeAt false (addNew (key.getLast?.getD "") value) key.dropLast done with
                | .error e => .error e
                | .ok fields =>
                    match skipSpace rest' with
                    | '\x7d' :: rest'' => .ok (.record fields, rest'')
                    | ',' :: rest'' =>
                        readInline fuel (if isClosed value then key :: closed else closed) fields
                          (skipSpace rest'')
                    | _ => malformed
      | .ok _ => malformed
end

structure State where
  data : Fields := []
  header : Key := []
  /-- Keys whose values are closed, with all below them. -/
  closed : List Key := []
  /-- Tables that a header may not open again. -/
  opened : List Key := []
  /-- Tables of dotted keys that the next header closes in the same way. -/
  pending : List Key := []

def State.pair (s : State) (key : Key) (value : Value) : Except ReadError State := do
  let parents := (List.range (key.length - 1)).map (fun n => s.header ++ key.take (n + 1))
  if parents.any s.opened.contains then malformed
  else if atOrBelow s.closed (s.header ++ key.dropLast) then malformed
  else
    let data ← changeAt true (addNew (key.getLast?.getD "") value) (s.header ++ key.dropLast) s.data
    return { s with
      data
      closed := if isClosed value then (s.header ++ key) :: s.closed else s.closed
      pending := parents ++ s.pending }

def State.settle (s : State) : State := { s with opened := s.pending ++ s.opened, pending := [] }

def State.table (s : State) (key : Key) : Except ReadError State := do
  if s.opened.contains key || atOrBelow s.closed key then malformed
  else
    let data ← changeAt true .ok key s.data
    return { s with data, header := key, opened := key :: s.opened }

/-- Opens a further table of a list; what was said of the tables before it no longer holds. -/
def State.listTable (s : State) (key : Key) : Except ReadError State := do
  if atOrBelow s.closed key then malformed
  else
    let keep := fun (keys : List Key) => keys.filter (fun k => !key.isPrefixOf k)
    let data ← changeAt true (addTable (key.getLast?.getD "")) key.dropLast s.data
    return { s with data, header := key, closed := keep s.closed, opened := key :: keep s.opened }

def readHeader (s : State) (text : List Char) : Except ReadError (State × List Char) :=
  let s := s.settle
  match text with
  | '[' :: '[' :: rest => do
      let (key, rest') ← readKey (skipSpace rest)
      let s' ← s.listTable key
      match rest' with
      | ']' :: ']' :: rest'' => return (s', rest'')
      | _ => malformed
  | '[' :: rest => do
      let (key, rest') ← readKey (skipSpace rest)
      let s' ← s.table key
      match rest' with
      | ']' :: rest'' => return (s', rest'')
      | _ => malformed
  | _ => malformed

def readPair (s : State) (text : List Char) : Except ReadError (State × List Char) := do
  let (key, rest) ← readKey text
  match rest with
  | '=' :: rest' =>
      let body := skipSpace rest'
      let (value, rest'') ← readValue (2 * body.length + 2) body
      return (← s.pair key value, rest'')
  | _ => malformed

def readStatement (s : State) (text : List Char) : Except ReadError (State × List Char) :=
  match text with
  | [] => .ok (s, [])
  | c :: _ =>
      if isBareKey c || c == '"' || c == '\'' then readPair s text
      else if c == '[' then readHeader s text
      else if c == '#' || c == '\n' then .ok (s, text)
      else malformed

def readLines : Nat → State → List Char → Except ReadError State
  | 0, _, _ => malformed
  | fuel + 1, s, text => do
      let (s', rest) ← readStatement s (skipSpace text)
      match ← skipComment (skipSpace rest) with
      | [] => return s'
      | '\n' :: rest' => readLines fuel s' rest'
      | _ => malformed

def read (text : String) : Except ReadError Fields :=
  let chars := Text.joinPairs [] text.toList
  (readLines (chars.length + 1) {} chars).map State.data

end DebugSweep.Toml
