import ContainerRecipe.Datum
import ContainerRecipe.Datum.Json.Token

namespace ContainerRecipe.Json

def dropDigits? (cs : List Char) : Option (List Char) :=
  match cs with
  | c :: rest => if c.isDigit then some (rest.dropWhile Char.isDigit) else none
  | [] => none

def dropWhole? : List Char → Option (List Char)
  | '0' :: rest => some rest
  | cs => dropDigits? cs

def dropFraction? : List Char → Option (List Char)
  | '.' :: rest => dropDigits? rest
  | cs => some cs

def dropExponent? : List Char → Option (List Char)
  | c :: rest =>
    if c = 'e' || c = 'E' then
      match rest with
      | '+' :: rest => dropDigits? rest
      | '-' :: rest => dropDigits? rest
      | rest => dropDigits? rest
    else some (c :: rest)
  | [] => some []

def dropSign : List Char → List Char
  | '-' :: cs => cs
  | cs => cs

def isNumber (cs : List Char) : Bool :=
  ((dropWhole? (dropSign cs)).bind dropFraction?).bind dropExponent? == some []

def ofWord? (cs : List Char) : Option Datum :=
  match String.ofList cs with
  | "null" => some .null
  | "true" => some (.flag true)
  | "false" => some (.flag false)
  | literal => if isNumber cs then some (.number literal) else none

mutual

-- Reads a value. The bound is on the tokens that are left.
def value? : Nat → List Token → Option (Datum × List Token)
  | 0, _ => none
  | bound + 1, tokens =>
    match tokens with
    | .text s :: rest => some (.text s, rest)
    | .word cs :: rest => (ofWord? cs).map (·, rest)
    | .openList :: .closeList :: rest => some (.list [], rest)
    | .openList :: rest => (items? bound rest).map fun (items, rest) => (.list items, rest)
    | .openRecord :: .closeRecord :: rest => some (.record [], rest)
    | .openRecord :: rest => (fields? bound rest).map fun (fields, rest) => (.record fields, rest)
    | _ => none

def items? : Nat → List Token → Option (List Datum × List Token)
  | 0, _ => none
  | bound + 1, tokens => do
    match ← value? bound tokens with
    | (item, .comma :: rest) =>
      let (items, rest) ← items? bound rest
      return (item :: items, rest)
    | (item, .closeList :: rest) => return ([item], rest)
    | _ => none

def fields? : Nat → List Token → Option (List (String × Datum) × List Token)
  | bound + 1, .text name :: .colon :: tokens => do
    match ← value? bound tokens with
    | (field, .comma :: rest) =>
      let (fields, rest) ← fields? bound rest
      return ((name, field) :: fields, rest)
    | (field, .closeRecord :: rest) => return ([(name, field)], rest)
    | _ => none
  | _, _ => none

end

def read? (s : String) : Option Datum := do
  let tokens ← tokens? s
  match ← value? (2 * tokens.length) tokens with
  | (d, []) => some d
  | _ => none

end ContainerRecipe.Json
