import DebugSweep.Edit.Document
import DebugSweep.Lexis.Terminator

/-! Where a new statement goes, and how far it is indented. -/
namespace DebugSweep.Edit
open Text Lexis

structure IndentOptions where
  tabSize : Int := 4
  insertSpaces : Bool := true
  deriving DecidableEq, Repr

inductive Rule where
  | statementEnd
  | afterOpeningBrace
  | beforeClosingBrace
  | emptyBlock
  | blockClose
  deriving DecidableEq, Repr

def Rule.name : Rule → String
  | .statementEnd => "statement_end"
  | .afterOpeningBrace => "after_opening_brace"
  | .beforeClosingBrace => "before_closing_brace"
  | .emptyBlock => "empty_block"
  | .blockClose => "block_close"

/-- A place for a statement. In an empty block on one line it starts with a line break. -/
structure Plan where
  line : Nat
  column : Nat := 0
  indent : List Char
  leadingNewline : Bool := false
  rule : Rule := .statementEnd
  deriving DecidableEq, Repr

def Plan.toValue (p : Plan) : Value :=
  .record [("line", .ofNat p.line), ("column", .ofNat p.column),
    ("indent", .text (String.ofList p.indent)), ("leading_newline", .bool p.leadingNewline),
    ("rule", .text p.rule.name)]

def leadingIndent (line : List Char) : List Char := line.takeWhile isBlank

/-- One step deeper; a tab where the surroundings use tabs. -/
def indentStep (base : List Char) (options : IndentOptions) : List Char :=
  if base.contains '\t' then ['\t']
  else if options.insertSpaces then List.replicate options.tabSize.toNat ' '
  else ['\t']

def isLoneBrace (trimmed : List Char) : Bool := trimmed == ['\x7b'] || trimmed == ['\x7d']

/-- The indent of the first of these lines that is neither blank nor a lone brace. -/
def contentIndent : List (List Char) → List Char
  | [] => []
  | line :: rest =>
      let trimmed := strip line
      if trimmed.isEmpty || isLoneBrace trimmed then contentIndent rest else leadingIndent line

def previousIndent (lines : List (List Char)) (fromLine : Int) : List Char :=
  contentIndent (lines.take (fromLine + 1).toNat).reverse

def braceDepth (depth : Nat) : List Char → Option Nat
  | [] => some depth
  | c :: rest =>
      if c == '\x7b' then braceDepth (depth + 1) rest
      else if c == '\x7d' then (if depth == 0 then none else braceDepth (depth - 1) rest)
      else braceDepth depth rest

def checkBraces (state : LineState) (depth number : Nat) : List (List Char) → Except Fault Unit
  | [] => if depth == 0 then .ok () else .error (.unbalanced none)
  | line :: rest =>
      let code := codeOf line state
      match braceDepth depth code.text with
      | none => .error (.unbalanced (some number))
      | some depth' => checkBraces code.exit depth' (number + 1) rest

def Document.checkBalance (d : Document) : Except Fault Unit := checkBraces {} 0 1 d.lines

def codeIndex? (line : List Char) (wanted : Char) (start : Nat) : Option Nat :=
  ((codeOf line {}).chars.find? (fun (offset, c) => start ≤ offset && c == wanted)).map Prod.fst

def nextContent? (number : Nat) : List (List Char) → Option (Nat × List Char)
  | [] => none
  | line :: rest => if allBlank line then nextContent? (number + 1) rest else some (number, line)

/-- The place inside a block that opens on the line, if the block is empty or closes next. -/
def planInBlock? (lines : List (List Char)) (line : Nat) (current : List Char)
    (options : IndentOptions) : Option Plan := do
  let opened ← codeIndex? current '\x7b' 0
  let deeper := fun base => base ++ indentStep base options
  let closed := codeIndex? current '\x7d' (opened + 1)
  match closed with
  | some close =>
      if allBlank ((current.take close).drop (opened + 1)) then
        return { line, column := close, indent := deeper (leadingIndent current),
                 leadingNewline := true, rule := .emptyBlock }
  | none => pure ()
  let (number, text) ← nextContent? (line + 1) (lines.drop (line + 1))
  if (strip text).head? == some '\x7d' then
    some { line := number, indent := deeper (leadingIndent text), rule := .blockClose }
  else none

def planAfter (lines : List (List Char)) (line character : Nat) : Plan :=
  let anchor : Nat := match statementEndInLines? lines line character with
    | some (some (found, _)) => found.toNat
    | _ => line
  let near := previousIndent lines anchor
  let indent := if near.isEmpty then leadingIndent ((lines[anchor]?).getD []) else near
  { line := anchor + 1, indent }

def plan (d : Document) (s : Selection) (options : IndentOptions) : Except Fault Plan := do
  d.checkBalance
  let lines := d.lines
  let line := min s.endLine (lines.length - 1)
  let current := (lines[line]?).getD []
  let next := ((lines[line + 1]?).map strip).getD []
  if next == ['\x7b'] then
    let base := leadingIndent ((lines[line + 1]?).getD [])
    return { line := min (line + 2) lines.length, indent := base ++ indentStep base options,
             rule := .afterOpeningBrace }
  if next == ['\x7d'] then
    let near := previousIndent lines line
    return { line := line + 1, indent := if near.isEmpty then leadingIndent current else near,
             rule := .beforeClosingBrace }
  match planInBlock? lines line current options with
  | some found => return found
  | none => return planAfter lines line s.endCharacter

def render (p : Plan) (statement : List Char) : List Char :=
  (if p.leadingNewline then ['\n'] else []) ++ p.indent ++ statement ++ ['\n']

def apply (d : Document) (p : Plan) (statement : List Char) : Except Fault Document :=
  d.insert p.line p.column (render p statement)

end DebugSweep.Edit
