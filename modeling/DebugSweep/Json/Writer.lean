import DebugSweep.Number.Shortest
import DebugSweep.Text.Hex
import DebugSweep.Value

/-! Values as JSON text. -/
namespace DebugSweep.Json

/-- How a value is laid out: whether characters outside printable ASCII are escaped, whether
fields are sorted by name, and how deep a level is indented (on one line if not at all). -/
structure Style where
  ascii : Bool := true
  sorted : Bool := false
  indent : Option Nat := none
  deriving DecidableEq, Repr

def Style.line : Style := { sorted := true }

def Style.page : Style := { indent := some 2 }

def unitText (unit : Nat) : String := String.ofList ('\\' :: 'u' :: Text.hexDigits 4 unit)

/-- A character above the first plane is written as its two UTF-16 units. -/
def pointText (point : Nat) : String :=
  if point < 0x10000 then unitText point
  else unitText (0xd800 + (point - 0x10000) / 0x400) ++ unitText (0xdc00 + (point - 0x10000) % 0x400)

def charText (ascii : Bool) (c : Char) : String :=
  if c == '"' then "\\\""
  else if c == '\\' then "\\\\"
  else if c == '\n' then "\\n"
  else if c == '\r' then "\\r"
  else if c == '\t' then "\\t"
  else if c.toNat == 0xc then "\\f"
  else if c.toNat == 0x8 then "\\b"
  else if c.toNat < 0x20 || (ascii && 0x7e < c.toNat) then pointText c.toNat
  else c.toString

def stringText (ascii : Bool) (s : String) : String :=
  s.toList.foldl (fun out c => out ++ charText ascii c) "\"" ++ "\""

def realText (bits : UInt64) : String :=
  if Binary64.isNaN bits then "NaN"
  else if Binary64.magnitude bits == Binary64.infinity then
    if Binary64.isNegative bits then "-Infinity" else "Infinity"
  else String.ofList (Binary64.text bits)

def Style.lineBreak (style : Style) (level : Nat) : String :=
  match style.indent with
  | none => ""
  | some width => String.ofList ('\n' :: List.replicate (width * level) ' ')

def Style.comma (style : Style) (level : Nat) : String :=
  match style.indent with
  | none => ", "
  | some _ => "," ++ style.lineBreak level

mutual
def emit (style : Style) (level : Nat) (out : String) : Value → String
  | .null => out ++ "null"
  | .bool true => out ++ "true"
  | .bool false => out ++ "false"
  | .int n => out ++ toString n
  | .real bits => out ++ realText bits
  | .text s => out ++ stringText style.ascii s
  | .moment s => out ++ stringText style.ascii s
  | .list [] => out ++ "[]"
  | .list (item :: items) =>
      emitItems style (level + 1)
        (emit style (level + 1) (out ++ "[" ++ style.lineBreak (level + 1)) item) items
        ++ style.lineBreak level ++ "]"
  | .record [] => out ++ "\x7b\x7d"
  | .record ((name, value) :: fields) =>
      emitFields style (level + 1)
        (emit style (level + 1)
          (out ++ "\x7b" ++ style.lineBreak (level + 1) ++ stringText style.ascii name ++ ": ") value)
        fields
        ++ style.lineBreak level ++ "\x7d"

def emitItems (style : Style) (level : Nat) (out : String) : List Value → String
  | [] => out
  | item :: items =>
      emitItems style level (emit style level (out ++ style.comma level) item) items

def emitFields (style : Style) (level : Nat) (out : String) : List (String × Value) → String
  | [] => out
  | (name, value) :: fields =>
      emitFields style level
        (emit style level
          (out ++ style.comma level ++ stringText style.ascii name ++ ": ") value) fields
end

mutual
def sortFields : Value → Value
  | .list items => .list (sortItems [] items)
  | .record fields => .record ((sortPairs [] fields).mergeSort (fun a b => decide (a.1 ≤ b.1)))
  | value => value

def sortItems (done : List Value) : List Value → List Value
  | [] => done.reverse
  | item :: items => sortItems (sortFields item :: done) items

def sortPairs (done : List (String × Value)) : List (String × Value) → List (String × Value)
  | [] => done.reverse
  | (name, value) :: fields => sortPairs ((name, sortFields value) :: done) fields
end

def write (style : Style) (value : Value) : String :=
  emit style 0 "" (if style.sorted then sortFields value else value)

end DebugSweep.Json
