import DebugSweep.Edit.Document
import DebugSweep.Lexis.Classes
import DebugSweep.Text.Case
import DebugSweep.Text.Slice

/-! Expressions that a dump can show: variables and calls, each with a chain of accessors. -/
namespace DebugSweep.Edit
open Text Lexis

structure Balance where
  depth : Int := 0
  quote : Option Char := none
  slashes : Nat := 0
  deriving DecidableEq, Repr

/-- What a character does to the walk; none if it closes what was not opened, true if it closes
the outermost pair. -/
def Balance.step (opener closer : Char) (b : Balance) (c : Char) : Option (Bool × Balance) :=
  let slashes := if c == '\\' then b.slashes + 1 else 0
  match b.quote with
  | some q =>
      some (false, { b with quote := if c == q && b.slashes % 2 == 0 then none else some q, slashes })
  | none =>
      if isQuote c then some (false, { b with quote := some c, slashes })
      else if c == opener then some (false, { b with depth := b.depth + 1, slashes })
      else if c == closer then
        if b.depth == 1 then some (true, { b with depth := 0, slashes })
        else if b.depth < 1 then none
        else some (false, { b with depth := b.depth - 1, slashes })
      else some (false, { b with slashes })

def Balance.run (opener closer : Char) (b : Balance) (offset : Int) : List Char → Option Int
  | [] => none
  | c :: rest =>
      match b.step opener closer c with
      | none => none
      | some (true, _) => some offset
      | some (false, b') => b'.run opener closer (offset + 1) rest

/-- The offset of the closer that matches the opener at the head of the text; quoted text is
passed over. -/
def closing? (opener closer : Char) (text : List Char) : Option Nat :=
  (Balance.run opener closer {} 0 text).map Int.toNat

/-- As `closing?`, from a signed place. Places before the text count from its end and go on with
the whole text; there is none before those. -/
def scanBalanced (source : List Char) (start : Int) (opener closer : Char) :
    Except Fault (Option Int) :=
  if start < -(source.length : Int) then .error (.indexOutside "string")
  else
    let tail := onward start source ++ (if start < 0 then source else [])
    .ok (Balance.run opener closer {} start tail)

def isNameStart (c : Char) : Bool :=
  c.isAlpha || c == '_' || (0x80 ≤ c.toNat && c.toNat ≤ 0xffff)

def isNameChar (c : Char) : Bool := isNameStart c || c.isDigit

def dropName? : List Char → Option (List Char)
  | c :: rest => if isNameStart c then some (rest.dropWhile isNameChar) else none
  | [] => none

def dropGroup? (opener closer : Char) (text : List Char) : Option (List Char) :=
  (closing? opener closer text).map (fun offset => text.drop (offset + 1))

def dropAccessor? (text : List Char) : Option (List Char) :=
  match text with
  | '[' :: _ => dropGroup? '[' ']' text
  | '-' :: '>' :: rest => do
      let after := dropBlanks (← dropName? (dropBlanks rest))
      match after with
      | '(' :: _ => dropGroup? '(' ')' after
      | _ => some after
  | _ => none

def accessorsOnly : Nat → List Char → Bool
  | 0, text => allBlank text
  | fuel + 1, text =>
      match dropBlanks text with
      | [] => true
      | c :: rest =>
          match dropAccessor? (c :: rest) with
          | some rest' => accessorsOnly fuel rest'
          | none => false

def accessorsToEnd (text : List Char) : Bool := accessorsOnly text.length text

def isVariable (text : List Char) : Bool :=
  match strip text with
  | '$' :: rest =>
      match dropName? rest with
      | some rest' => accessorsToEnd rest'
      | none => false
  | _ => false

def qualifiersOnly : Nat → List Char → Bool
  | 0, text => text.isEmpty
  | fuel + 1, text =>
      match text with
      | [] => true
      | ':' :: ':' :: rest =>
          match dropName? rest with
          | some rest' => qualifiersOnly fuel rest'
          | none => false
      | _ => false

def isCallee (text : List Char) : Bool :=
  match dropName? text with
  | some rest => qualifiersOnly rest.length rest
  | none => false

def splitCall? (source : List Char) : Option (List Char × List Char) :=
  let head := source.takeWhile (· != '(')
  let tail := source.drop head.length
  if head.isEmpty || tail.isEmpty then none else some (strip head, tail)

def isCall (text : List Char) : Bool :=
  match splitCall? (strip text) with
  | none => false
  | some (callee, tail) =>
      isCallee callee &&
        (match dropGroup? '(' ')' tail with
        | some rest => accessorsToEnd rest
        | none => false)

def isInsertable (text : List Char) : Bool := isVariable text || isCall text

def isIncompleteCall (text : List Char) : Bool :=
  match splitCall? (strip text) with
  | none => false
  | some (callee, tail) =>
      (isCallee callee || isVariable callee) && (closing? '(' ')' tail).isNone

def insideString (line : List Char) (start stop : Int) : Bool :=
  let classes := (classify line {}).classes
  let length : Int := classes.length
  if length ≤ start then false
  else
    let last := min (max (stop - 1) start) (length - 1)
    (between start (last + 1) classes).all (fun cls => decide (cls = .string))

def beforeCall (line : List Char) (stop : Int) : Bool :=
  (dropBlanks (onward stop line)).head? == some '('

def dropSemicolon (text : List Char) : List Char :=
  let kept := dropBlanksEnd text
  if kept.getLast? == some ';' then kept.dropLast else kept

/-- The selected expression if it can be dumped. A name right behind a dollar sign is the
variable. -/
def accepted? (before : Option Char) (expression : List Char) : Option (List Char) :=
  if expression.head? == some '$' then
    (if isVariable expression then some expression else none)
  else if isCall expression then some expression
  else if before == some '$' && isVariable ('$' :: expression) then some ('$' :: expression)
  else none

def expressionOf (d : Document) (s : Selection) : Except Fault (List Char) := do
  let selected := strip (← d.textIn s)
  if selected.isEmpty then throw .noSelection
  let lastLine ← d.line s.endLine
  if s.startLine == s.endLine && insideString lastLine s.startCharacter s.endCharacter then
    throw .insideString
  if !selected.contains '(' && beforeCall lastLine s.endCharacter then throw .ambiguousSelection
  let expression := dropSemicolon selected
  let firstLine ← d.line s.startLine
  let before := if s.startCharacter == 0 then none else firstLine[s.startCharacter - 1]?
  match accepted? before expression with
  | some accepted => return accepted
  | none =>
      if isIncompleteCall expression then throw .ambiguousSelection else throw .notInsertable

def languages : List String := ["php", "javascript", "typescript", "python"]

/-- A statement that dumps an expression; unknown languages are taken for the first one. -/
def dumpStatement (language : String) (expression : List Char) : List Char :=
  let name := lower language
  if name == "javascript" || name == "typescript" then
    "console.log(".toList ++ expression ++ ");".toList
  else if name == "python" then "print(".toList ++ expression ++ ")".toList
  else "var_dump(".toList ++ expression ++ ");exit;".toList

end DebugSweep.Edit
