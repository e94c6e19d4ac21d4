namespace ContainerRecipe.Json

inductive Token where
  | openList
  | closeList
  | openRecord
  | closeRecord
  | comma
  | colon
  | text (value : String)
  | word (cs : List Char)
  deriving DecidableEq, Repr

def joinUnits : List Nat → Option (List Char)
  | [] => some []
  | high :: rest =>
    if 0xD800 ≤ high && high < 0xDC00 then
      match rest with
      | low :: rest =>
        if 0xDC00 ≤ low && low < 0xE000 then
          (joinUnits rest).map
            (Char.ofNat (0x10000 + (high - 0xD800) * 0x400 + (low - 0xDC00)) :: ·)
        else none
      | [] => none
    else if 0xDC00 ≤ high && high < 0xE000 then none
    else (joinUnits rest).map (Char.ofNat high :: ·)

def escaped? : Char → Option Char
  | '"' => some '"'
  | '\\' => some '\\'
  | '/' => some '/'
  | 'b' => some '\x08'
  | 'f' => some '\x0c'
  | 'n' => some '\n'
  | 'r' => some '\r'
  | 't' => some '\t'
  | _ => none

def hexValue? (c : Char) : Option Nat :=
  if c.isDigit then some (c.toNat - 48)
  else if 'a' ≤ c && c ≤ 'f' then some (c.toNat - 87)
  else if 'A' ≤ c && c ≤ 'F' then some (c.toNat - 55)
  else none

inductive Pending where
  | nothing
  | word (read : List Char)
  | text (read : List Nat)
  | escape (read : List Nat)
  | unit (read : List Nat) (digits value : Nat)

structure Scan where
  pending : Pending := .nothing
  tokens : List Token := []

namespace Scan

def emit (s : Scan) (t : Token) : Scan := ⟨.nothing, t :: s.tokens⟩

def mark? : Char → Option Token
  | '[' => some .openList
  | ']' => some .closeList
  | '\x7b' => some .openRecord
  | '\x7d' => some .closeRecord
  | ',' => some .comma
  | ':' => some .colon
  | _ => none

def isSpace (c : Char) : Bool := c = ' ' || c = '\n' || c = '\r' || c = '\t'

def start (s : Scan) (c : Char) : Scan :=
  if isSpace c then s
  else if c = '"' then { s with pending := .text [] }
  else match mark? c with
    | some t => s.emit t
    | none => { s with pending := .word [c] }

def step (s : Scan) (c : Char) : Option Scan :=
  match s.pending with
  | .nothing => some (s.start c)
  | .word read =>
    if isSpace c || c = '"' || (mark? c).isSome then some ((s.emit (.word read.reverse)).start c)
    else some { s with pending := .word (c :: read) }
  | .text read =>
    if c = '"' then (joinUnits read.reverse).map fun cs => s.emit (.text (String.ofList cs))
    else if c = '\\' then some { s with pending := .escape read }
    else if c.toNat < 32 then none
    else some { s with pending := .text (c.toNat :: read) }
  | .escape read =>
    if c = 'u' then some { s with pending := .unit read 0 0 }
    else (escaped? c).map fun d => { s with pending := .text (d.toNat :: read) }
  | .unit read digits value =>
    (hexValue? c).map fun n =>
      if digits = 3 then { s with pending := .text ((16 * value + n) :: read) }
      else { s with pending := .unit read (digits + 1) (16 * value + n) }

def finish? (s : Scan) : Option (List Token) :=
  match s.pending with
  | .nothing => some s.tokens.reverse
  | .word read => some (s.emit (.word read.reverse)).tokens.reverse
  | _ => none

end Scan

def tokens? (s : String) : Option (List Token) :=
  (s.toList.foldlM Scan.step {}).bind Scan.finish?

end ContainerRecipe.Json
