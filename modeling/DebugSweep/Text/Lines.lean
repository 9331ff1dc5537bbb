/-! Lines of a text. Source text is cut at line feeds only; files opened as text first have
every line ending turned into a line feed. -/
namespace DebugSweep.Text

def lines (text : List Char) : List (List Char) := text.splitOn '\n'

def unlines (lines : List (List Char)) : List Char := List.intercalate ['\n'] lines

/-- Turns a carriage return, alone or before a line feed, into one line feed.
`after` tells that the last character was a carriage return. -/
def plainEndings (done : List Char) (after : Bool) : List Char → List Char
  | [] => done.reverse
  | c :: rest =>
      if c == '\r' then plainEndings ('\n' :: done) true rest
      else if c == '\n' && after then plainEndings done false rest
      else plainEndings (c :: done) false rest

def normalizeEndings (text : List Char) : List Char := plainEndings [] false text

def joinPairs (done : List Char) : List Char → List Char
  | [] => done.reverse
  | c :: rest =>
      if c == '\r' && rest.head? == some '\n' then joinPairs done rest else joinPairs (c :: done) rest

def endsLine (c : Char) : Bool :=
  let n := c.toNat
  (0xa ≤ n && n ≤ 0xd) || (0x1c ≤ n && n ≤ 0x1e) || n == 0x85 || n == 0x2028 || n == 0x2029

/-- Lines of a report, a carriage return and line feed counting as one ending. The empty rest
after a last ending is no line. -/
def reportLines (text : List Char) : List (List Char) :=
  let pieces := (joinPairs [] text).splitOnP endsLine
  if pieces.getLast? == some [] then pieces.dropLast else pieces

end DebugSweep.Text
