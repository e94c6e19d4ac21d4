import ContainerRecipe.Text.Blank

namespace ContainerRecipe.Shell

inductive Quoting where
  | bare
  | single
  | double
  | escaped
  | doubleEscaped
  deriving DecidableEq, Repr

-- What has been read so far. A word that was opened counts even while it is empty.
structure Scan where
  quoting : Quoting := .bare
  word : Option (List Char) := none
  words : List (List Char) := []
  deriving DecidableEq, Repr

namespace Scan

def enter (s : Scan) (quoting : Quoting) : Scan :=
  { s with quoting, word := some (s.word.getD []) }

def push (s : Scan) (quoting : Quoting) (cs : List Char) : Scan :=
  { s with quoting, word := some (s.word.getD [] ++ cs) }

def close (s : Scan) : Scan := { s with word := none, words := s.words ++ s.word.toList }

def step (s : Scan) (c : Char) : Scan :=
  match s.quoting with
  | .bare =>
    if Text.isBlank c then s.close
    else if c = '\'' then s.enter .single
    else if c = '"' then s.enter .double
    else if c = '\\' then s.enter .escaped
    else s.push .bare [c]
  | .single => if c = '\'' then s.enter .bare else s.push .single [c]
  | .double =>
    if c = '"' then s.enter .bare
    else if c = '\\' then s.enter .doubleEscaped
    else s.push .double [c]
  -- An escaped line feed continues the line.
  | .escaped => if c = '\n' then s.enter .bare else s.push .bare [c]
  -- Between double quotes a backslash stands for itself before all but four characters.
  | .doubleEscaped =>
    if c = '\n' then s.enter .double
    else if c = '"' || c = '\\' || c = '$' || c = '\x60' then s.push .double [c]
    else s.push .double ['\\', c]

-- The words, unless the line ended inside quotes or after a backslash.
def finish? (s : Scan) : Option (List (List Char)) :=
  if s.quoting = .bare then some (s.words ++ s.word.toList) else none

end Scan

def splitChars? (cs : List Char) : Option (List (List Char)) := (cs.foldl Scan.step {}).finish?

def splitWords? (line : String) : Option (List String) :=
  (splitChars? line.toList).map (·.map String.ofList)

def isLiteral (c : Char) : Bool :=
  c.isAlphanum || ['_', '-', '+', '=', '.', '/', ',', ':', '@', '%', '^'].contains c

-- Inside single quotes a quote is written by leaving them for one escaped quote.
def quotedChars (cs : List Char) : List Char :=
  cs.flatMap fun c => if c = '\'' then ['\'', '\\', '\'', '\''] else [c]

def quoteChars (cs : List Char) : List Char :=
  if !cs.isEmpty && cs.all isLiteral then cs else '\'' :: quotedChars cs ++ ['\'']

def quoteWord (word : String) : String := String.ofList (quoteChars word.toList)

end ContainerRecipe.Shell
