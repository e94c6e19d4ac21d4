namespace ContainerRecipe.Script.Source

inductive Token where
  | name (n : String)
  | number (n : Nat)
  | text (value : String)
  | mark (c : Char)
  | joined
  | equal
  deriving DecidableEq, Repr

inductive Pending where
  | nothing
  | name (read : List Char)
  | number (value : Nat)
  | text (quote : Char) (read : List Char)
  | escape (quote : Char) (read : List Char)
  -- A sign that can be the first half of a longer one.
  | sign (c : Char)
  | dashes
  | comment

structure Scan where
  pending : Pending := .nothing
  tokens : List Token := []

def isSpace (c : Char) : Bool := c = ' ' || (9 ≤ c.toNat && c.toNat ≤ 13)

def startsName (c : Char) : Bool := c.isAlpha || c = '_'

def escaped? : Char → Option Char
  | '"' => some '"'
  | '\'' => some '\''
  | '\\' => some '\\'
  | 'n' => some '\n'
  | 'r' => some '\r'
  | 't' => some '\t'
  | _ => none

namespace Scan

def emit (s : Scan) (t : Token) : Scan := ⟨.nothing, t :: s.tokens⟩

def start (s : Scan) (c : Char) : Option Scan :=
  if isSpace c then some s
  else if startsName c then some { s with pending := .name [c] }
  else if c.isDigit then some { s with pending := .number (c.toNat - 48) }
  else if c = '"' || c = '\'' then some { s with pending := .text c [] }
  else if c = '.' || c = '=' || c = '-' then some { s with pending := .sign c }
  else if "()[]\x7b\x7d,;:".toList.contains c then some (s.emit (.mark c))
  else none

-- A sign that stands alone. There is no subtraction.
def single? (s : Scan) (c : Char) : Option Scan := if c = '-' then none else some (s.emit (.mark c))

def step (s : Scan) (c : Char) : Option Scan :=
  match s.pending with
  | .nothing => s.start c
  | .name read =>
    if startsName c || c.isDigit then some { s with pending := .name (c :: read) }
    else (s.emit (.name (String.ofList read.reverse))).start c
  | .number value =>
    if c.isDigit then some { s with pending := .number (10 * value + (c.toNat - 48)) }
    else if startsName c || c = '.' then none
    else (s.emit (.number value)).start c
  | .text quote read =>
    if c = quote then some (s.emit (.text (String.ofList read.reverse)))
    else if c = '\\' then some { s with pending := .escape quote read }
    else if c = '\n' || c = '\r' then none
    else some { s with pending := .text quote (c :: read) }
  | .escape quote read => (escaped? c).map fun d => { s with pending := .text quote (d :: read) }
  | .sign first =>
    if c = first then
      if c = '.' then some (s.emit .joined)
      else if c = '=' then some (s.emit .equal)
      else some { s with pending := .dashes }
    else (s.single? first).bind (·.start c)
  -- What starts with a bracket can be longer than its line.
  | .dashes =>
    if c = '[' then none else some { s with pending := if c = '\n' then .nothing else .comment }
  | .comment => some { s with pending := if c = '\n' then .nothing else .comment }

def finish? (s : Scan) : Option (List Token) :=
  match s.pending with
  | .nothing | .dashes | .comment => some s.tokens.reverse
  | .name read => some (s.emit (.name (String.ofList read.reverse))).tokens.reverse
  | .number value => some (s.emit (.number value)).tokens.reverse
  | .sign c => (s.single? c).map (·.tokens.reverse)
  | .text _ _ | .escape _ _ => none

end Scan

def tokens? (s : String) : Option (List Token) :=
  (s.toList.foldlM Scan.step {}).bind Scan.finish?

end ContainerRecipe.Script.Source
