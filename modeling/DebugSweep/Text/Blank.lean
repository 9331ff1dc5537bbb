/-! White space and what is left of a text when it is cut off. -/
namespace DebugSweep.Text

/-- Blanks by code point: the control blanks, the information separators, the space and the
line, paragraph and typographic spaces of Unicode. -/
def isBlank (c : Char) : Bool :=
  let n := c.toNat
  (0x9 ≤ n && n ≤ 0xd) || (0x1c ≤ n && n ≤ 0x20) || n == 0x85 || n == 0xa0 || n == 0x1680 ||
    (0x2000 ≤ n && n ≤ 0x200a) || n == 0x2028 || n == 0x2029 || n == 0x202f || n == 0x205f ||
    n == 0x3000

def dropBlanks (text : List Char) : List Char := text.dropWhile isBlank

def dropBlanksEnd (text : List Char) : List Char := (text.reverse.dropWhile isBlank).reverse

def strip (text : List Char) : List Char := dropBlanksEnd (dropBlanks text)

def allBlank (text : List Char) : Bool := text.all isBlank

def dropEnd (c : Char) (text : List Char) : List Char := (text.reverse.dropWhile (· == c)).reverse

def stripText (text : String) : String := String.ofList (strip text.toList)

end DebugSweep.Text
