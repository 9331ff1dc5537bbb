/-! Values of requests, answers and configuration files. A record keeps its fields in the order
in which they were first set. -/
namespace DebugSweep

inductive Value where
  | null
  | bool (b : Bool)
  | int (n : Int)
  /-- A double by its bits. -/
  | real (bits : UInt64)
  | text (s : String)
  | list (items : List Value)
  | record (fields : List (String × Value))
  /-- A date or a time of day, as it was written. -/
  | moment (s : String)
  deriving Repr, BEq, Inhabited

inductive ReadError where
  | malformed
  | longNumber (digits : Nat)
  deriving DecidableEq, Repr

namespace Value

def fieldIn? (name : String) : List (String × Value) → Option Value
  | [] => none
  | (key, value) :: rest => if key = name then some value else fieldIn? name rest

def field? (name : String) : Value → Option Value
  | .record fields => fieldIn? name fields
  | _ => none

/-- Sets a field: a known name keeps its place, a new one comes last. -/
def setIn (name : String) (value : Value) : List (String × Value) → List (String × Value)
  | [] => [(name, value)]
  | (key, old) :: rest =>
      if key = name then (key, value) :: rest else (key, old) :: setIn name value rest

def text? : Value → Option String
  | .text s => some s
  | _ => none

def int? : Value → Option Int
  | .int n => some n
  | _ => none

def bool? : Value → Option Bool
  | .bool b => some b
  | _ => none

def isNull : Value → Bool
  | .null => true
  | _ => false

def texts? : Value → Option (List String)
  | .list items => items.mapM text?
  | _ => none

def ofTexts (items : List String) : Value := .list (items.map .text)

def ofNat (n : Nat) : Value := .int n

def ofText? : Option String → Value
  | some s => .text s
  | none => .null

end Value
end DebugSweep
