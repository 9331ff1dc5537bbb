import DebugSweep.Lexis.Code
import DebugSweep.Lexis.Kind
import DebugSweep.Text.Blank
import DebugSweep.Text.Case
import DebugSweep.Text.Word

/-! Recognition of debug statements by their tokens, which are read without regard to case. -/
namespace DebugSweep.Lexis
open Text

def Kind.Follow.holds (follow : Kind.Follow) (rest : List Char) : Bool :=
  match follow with
  | .call => (dropBlanks rest).head? == some '('
  | .blank => rest.head?.any isBlank
  | .boundary => !startsInWord rest

def Kind.leads (kind : Kind) (text : List Char) : Bool :=
  match dropToken? kind.token.toList (dropBlanks text) with
  | some rest => kind.follow.holds rest
  | none => false

def kindOf? (text : List Char) : Option Kind := Kind.all.find? (fun kind => kind.leads text)

def haltTokens : List (List Char) := ["exit".toList, "die".toList]

def dropHalt? (text : List Char) : Option (List Char) :=
  haltTokens.findSome? (fun token => dropToken? token text)

def haltHere (text : List Char) : Bool :=
  haltTokens.any (fun token => (dropToken? token text).any (fun rest => !startsInWord rest))

def hasHaltTail : List Char → Bool
  | [] => false
  | c :: rest => (c == ';' && haltHere (dropBlanks rest)) || hasHaltTail rest

def severityOf (content : List Char) : Severity :=
  if hasHaltTail (codeOf content {}).text then .error
  else
    match kindOf? content with
    | some kind => kind.severity
    | none => .info

/-- Characters in front of which a token is part of a longer name, a variable, a member or a
path. Letters and their variants are among them in either case. -/
def bindsToken (c : Char) : Bool :=
  let l := lowerChar c
  ('a' ≤ l && l ≤ 'z') || ('0' ≤ l && l ≤ '9') || l == '_' || l == '$' || l == '>' || l == ':' ||
    l == '\\' || l.toNat == 0x131 || l.toNat == 0x17f

def tokenHere (text : List Char) : Bool :=
  Kind.all.any (fun kind =>
    (dropToken? kind.token.toList text).any (fun rest => !startsInWord rest))

def mentions (before : Option Char) : List Char → Bool
  | [] => false
  | c :: rest => (!before.any bindsToken && tokenHere (c :: rest)) || mentions (some c) rest

def mentionsToken (code : List Char) : Bool := mentions none code

def dropArgument : List Char → List Char
  | '(' :: rest =>
      match rest.dropWhile (· != ')') with
      | ')' :: rest' => rest'
      | _ => '(' :: rest
  | text => text

def isHaltOnly (text : List Char) : Bool :=
  match dropHalt? (dropBlanks text) with
  | none => false
  | some rest =>
      match dropBlanks (dropArgument (dropBlanks rest)) with
      | ';' :: rest' => allBlank rest'
      | _ => false

def findToken? (token : List Char) (offset : Nat) : List Char → Option Nat
  | [] => none
  | c :: rest =>
      if (dropToken? token (c :: rest)).isSome then some offset else findToken? token (offset + 1) rest

def findHalt? (before : Option Char) (offset : Nat) : List Char → Option Nat
  | [] => none
  | c :: rest =>
      if !before.any isWord && haltHere (c :: rest) then some offset
      else findHalt? (some c) (offset + 1) rest

def findHaltFrom? (line : List Char) (start : Nat) : Option Nat :=
  findHalt? (line.take start).getLast? start (line.drop start)

end DebugSweep.Lexis
