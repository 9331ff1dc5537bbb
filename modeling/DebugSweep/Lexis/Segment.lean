import DebugSweep.Lexis.Pattern

/-! Candidate statements of a line of code: what stands between block braces, tags and
semicolons, up to and with a semicolon that no bracket encloses. -/
namespace DebugSweep.Lexis
open Text

structure Segment where
  text : List Char
  start : Nat
  stop : Nat
  deriving DecidableEq, Repr

def Segment.leading (s : Segment) : Nat := s.start + (s.text.takeWhile isBlank).length

/-- Whether the text, given backwards, ends in a variable's name. A line feed behind the name
does no harm. -/
def endsInVariable (before : List Char) : Bool :=
  let body := match before with
    | '\n' :: rest => rest
    | _ => before
  let name := body.takeWhile isWord
  match name.getLast?, body.drop name.length with
  | some first, '$' :: _ => first.isAlpha || first == '_'
  | _, _ => false

def opensExpression (before : List Char) : Bool :=
  match before with
  | '$' :: _ => true
  | '>' :: '-' :: _ => true
  | ':' :: ':' :: _ => true
  | _ => endsInVariable before

def tagLength (text : List Char) : Nat :=
  let startsWith := fun (tag : String) =>
    tag.toList.isPrefixOf ((text.take tag.length).map Char.toLower)
  if startsWith "?>" then 2 else if startsWith "<?php" then 5 else if startsWith "<?" then 2 else 0

structure Cutter where
  offset : Nat := 0
  start : Nat := 0
  /-- Characters since `start`, backwards. -/
  pending : List Char := []
  /-- All characters so far, backwards. -/
  before : List Char := []
  /-- Closers of the open brackets, innermost first. -/
  closers : List Char := []
  /-- Characters of a tag still to pass over. -/
  skip : Nat := 0
  done : List Segment := []
  deriving DecidableEq, Repr

def Cutter.keep (s : Cutter) (c : Char) : Cutter :=
  { s with offset := s.offset + 1, pending := c :: s.pending, before := c :: s.before }

def Cutter.cut (s : Cutter) (c : Char) : Cutter :=
  { s with offset := s.offset + 1, start := s.offset + 1, pending := [], before := c :: s.before }

def Cutter.step (s : Cutter) (c : Char) (rest : List Char) : Cutter :=
  if 0 < s.skip then { s.cut c with skip := s.skip - 1 }
  else if c == '(' then { s.keep c with closers := ')' :: s.closers }
  else if c == '[' then { s.keep c with closers := ']' :: s.closers }
  else if c == '\x7b' && opensExpression s.before then
    { s.keep c with closers := '\x7d' :: s.closers }
  else
    match s.closers with
    | closer :: outer => if c == closer then { s.keep c with closers := outer } else s.keep c
    | [] =>
        let tag := tagLength (c :: rest)
        if 0 < tag then { s.cut c with skip := tag - 1 }
        else if c == '\x7b' || c == '\x7d' then s.cut c
        else if c == ';' then
          { s.cut c with done := ⟨(c :: s.pending).reverse, s.start, s.offset⟩ :: s.done }
        else s.keep c

def Cutter.run (s : Cutter) : List Char → List Segment
  | [] => s.done.reverse
  | c :: rest => (s.step c rest).run rest

/-- The candidates of a line of code. What follows the last semicolon is none. -/
def segments (code : List Char) : List Segment := Cutter.run {} code

structure Merged where
  segment : Segment
  kind : Kind
  halt : Option Segment := none
  deriving DecidableEq, Repr

/-- Keeps the debug statements; a bare halt right behind one is folded into it. -/
def merge : List Segment → List Merged
  | [] => []
  | segment :: rest =>
      match kindOf? segment.text with
      | none => merge rest
      | some kind =>
          match rest with
          | [] => [{ segment, kind }]
          | following :: rest' =>
              if isHaltOnly following.text then
                { segment, kind, halt := some following } :: merge rest'
              else { segment, kind } :: merge (following :: rest')

end DebugSweep.Lexis
