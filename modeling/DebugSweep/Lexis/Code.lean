import DebugSweep.Lexis.Classes

/-! The code of a line: its characters outside strings, quotes and comments, each with its
offset in the line. -/
namespace DebugSweep.Lexis

structure CodeLine where
  chars : List (Nat × Char)
  exit : LineState
  deriving DecidableEq, Repr

def keepCode (offset : Nat) (done : List (Nat × Char)) :
    List Char → List CharClass → List (Nat × Char)
  | c :: line, cls :: classes =>
      keepCode (offset + 1) (if cls = .code then (offset, c) :: done else done) line classes
  | _, _ => done.reverse

def codeOf (line : List Char) (state : LineState) : CodeLine :=
  let classified := classify line state
  ⟨keepCode 0 [] line classified.classes, classified.exit⟩

def CodeLine.text (line : CodeLine) : List Char := line.chars.map Prod.snd

def CodeLine.offsets (line : CodeLine) : List Nat := line.chars.map Prod.fst

/-- The offset in the line of a position in its code; positions past the end stand right behind
the last code character, and negative ones on the first. -/
def CodeLine.rawOffset (line : CodeLine) (index : Int) : Nat :=
  match line.offsets.getLast? with
  | none => 0
  | some last => (line.offsets[index.toNat]?).getD (last + 1)

end DebugSweep.Lexis
