import ContainerRecipe.Datum
import ContainerRecipe.Text.Mended

namespace ContainerRecipe.Json

def hexDigit (n : Nat) : Char :=
  ['0', '1', '2', '3', '4', '5', '6', '7', '8', '9', 'a', 'b', 'c', 'd', 'e', 'f'].getD n '0'

-- A character inside a JSON string. Only the quote, the backslash and the control characters of ASCII are
-- escaped, in the short form where there is one.
def escapeChar (c : Char) : List Char :=
  if c = '"' then ['\\', '"']
  else if c = '\\' then ['\\', '\\']
  else if c = '\n' then ['\\', 'n']
  else if c = '\r' then ['\\', 'r']
  else if c = '\t' then ['\\', 't']
  else if c = '\x08' then ['\\', 'b']
  else if c = '\x0c' then ['\\', 'f']
  else if c.toNat < 32 then ['\\', 'u', '0', '0', hexDigit (c.toNat / 16), hexDigit (c.toNat % 16)]
  else [c]

def quoteChars (cs : List Char) : List Char := '"' :: cs.flatMap escapeChar ++ ['"']

def quote (s : String) : String := String.ofList (quoteChars s.toList)

def lineBreak (level : Nat) : String := "\n" ++ String.ofList (List.replicate (2 * level) ' ')

def bracket (level : Nat) (opening closing : String) (parts : List String) : String :=
  if parts.isEmpty then opening ++ closing
  else
    opening ++ ",".intercalate (parts.map (lineBreak (level + 1) ++ ·)) ++ lineBreak level ++ closing

def keyName? : Datum → Option String
  | .text s => some s
  | .bytes content => some (Text.mended content)
  | .number literal => some literal
  | .flag b => some (if b then "true" else "false")
  | _ => none

mutual

-- Lays out a datum at a level. A table is a list if it has items, and else a record of what it holds under
-- names; what has no form in JSON is null or a name in angle brackets.
def layOut (level : Nat) : Datum → String
  | .null | .again => "null"
  | .bytes content => quote (Text.mended content)
  | .stage => quote "<stage>"
  | .function => quote "<function>"
  | .flag b => if b then "true" else "false"
  | .number literal => literal
  | .text s => quote s
  | .list items => bracket level "[" "]" (layOutItems (level + 1) items)
  | .record fields => bracket level "\x7b" "\x7d" (layOutFields (level + 1) fields)
  | .table items others =>
    if items.isEmpty then bracket level "\x7b" "\x7d" (layOutNamed (level + 1) others)
    else bracket level "[" "]" (layOutItems (level + 1) items)

def layOutItems (level : Nat) : List Datum → List String
  | [] => []
  | d :: rest => layOut level d :: layOutItems level rest

def layOutFields (level : Nat) : List (String × Datum) → List String
  | [] => []
  | (name, d) :: rest => (quote name ++ ": " ++ layOut level d) :: layOutFields level rest

def layOutNamed (level : Nat) : List (Datum × Datum) → List String
  | [] => []
  | (k, d) :: rest =>
    (keyName? k).toList.map (fun name => quote name ++ ": " ++ layOut level d) ++
      layOutNamed level rest

end

def pretty (d : Datum) : String := layOut 0 d

end ContainerRecipe.Json
