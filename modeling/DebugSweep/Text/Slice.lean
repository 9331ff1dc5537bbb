/-! Parts of a sequence named by signed positions. A negative position counts from the end,
and a position beyond either end stands for that end. -/
namespace DebugSweep.Text

def position (length : Nat) (index : Int) : Nat :=
  if index < 0 then ((length : Int) + index).toNat else min index.toNat length

def upTo (index : Int) (items : List α) : List α := items.take (position items.length index)

def onward (index : Int) (items : List α) : List α := items.drop (position items.length index)

def between (first last : Int) (items : List α) : List α :=
  (items.take (position items.length last)).drop (position items.length first)

/-- Whether `part` stands in `text` at a signed position that is not past its end. -/
def standsAt (part : List Char) (index : Int) (text : List Char) : Bool :=
  index ≤ text.length && part.isPrefixOf (onward index text)

end DebugSweep.Text
