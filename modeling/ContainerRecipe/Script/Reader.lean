import ContainerRecipe.Datum.Json.Reader
import ContainerRecipe.Script.Program
import ContainerRecipe.Script.Source
import ContainerRecipe.Text.Parts

namespace ContainerRecipe.Script

def byte? : Expression → Option UInt8
  | .constant (.number (.integer n)) =>
    if 0 ≤ n.toInt && n.toInt < 256 then some (UInt8.ofNat n.toInt.toNat) else none
  | _ => none

def name? : Expression → Option String
  | .constant (.bytes content) => String.fromUTF8? content
  | _ => none

def parameter? : Datum → Option String
  | .text name => some name
  | _ => none

def operation? (operation : String) (operand : Expression) : Option Expression :=
  match operation, operand with
  | "$var", e => (name? e).map .variable
  | "$global", e => (name? e).map .global
  | "$get", .table [a, b] [] => some (.index a b)
  | "$cat", .table [a, b] [] => some (.concat a b)
  | "$or", .table [a, b] [] => some (.either a b)
  | "$eq", .table [a, b] [] => some (.same a b)
  | "$stage", .table arguments [] => some (.call (.recipe "stage") arguments)
  | "$method", .table (subject :: name :: arguments) [] =>
    (name? name).map (.method subject · arguments)
  | "$call", .table (f :: arguments) [] => some (.call f arguments)
  | "$fn", .table (name :: arguments) [] => (name? name).map fun f => .call (.global f) arguments
  | "$recipe", e => (name? e).map .recipe
  | "$userarg", e => some (.index (.recipe "userarg") e)
  | "$dir", _ => some .directory
  | "$bytes", .table items [] => do
    let bytes ← items.mapM byte?
    return .constant (.bytes ⟨bytes.toArray⟩)
  | "$float", e =>
    match name? e with
    | some "inf" => some (.constant (.number (.real (1.0 / 0.0))))
    | some "-inf" => some (.constant (.number (.real (-1.0 / 0.0))))
    | _ => none
  | "$function", _ => some (.function [] [])
  | _, _ => none

inductive TablePart where
  | items (items : List Expression)
  | fields (fields : List (String × Expression))

namespace TablePart

def itemsOf : TablePart → List Expression
  | .items es => es
  | .fields _ => []

def fieldsOf : TablePart → List (String × Expression)
  | .items _ => []
  | .fields es => es

end TablePart

inductive Part where
  | value (e : Expression)
  | block (body : Program)

def Part.value? : Part → Option Expression
  | .value e => some e
  | .block _ => none

def Part.block? : Part → Option Program
  | .value _ => none
  | .block body => some body

def blockNames : List String := ["try", "then", "else"]

def statement (parts : List (String × Part)) : Option Statement := do
  let value (name : String) := (parts.lookup name).bind Part.value?
  let block (name : String) := (parts.lookup name).bind Part.block?
  if let some name := value "let" then
    return .assign (← name? name) (← value "be")
  if let some e := value "do" then return .evaluate e
  if let some e := value "return" then return .giveBack e
  if let some e := value "set" then return .store e (← value "field") (← value "value")
  if let some body := block "try" then return .attempt body
  if let some e := value "if" then
    return .branch e (← block "then") ((block "else").getD [])
  none

mutual

-- Reads an expression. The parts of a `$table` stand for themselves, whatever their names are.
def expression? : Datum → Option Expression
  | .null => some .nil
  | .flag b => some (.constant (.flag b))
  | .number literal => (Number.read? literal).map fun n => .constant (.number n)
  | .text s => some (.text s)
  | .list items => (expressions? items).map (.table · [])
  | .record [("$table", .record entries)] => do
    let parts ← tableParts? entries
    return .table (parts.flatMap TablePart.itemsOf) (parts.flatMap TablePart.fieldsOf)
  | .record [("$function", .record [("parameters", .list names), ("body", .list body)])] => do
    return .function (← names.mapM parameter?) (← statements? body)
  | .record fields => do
    match ← fields? fields with
    | [(name, operand)] =>
      if Text.startsWith "$" name then operation? name operand
      else return .table [] [(name, operand)]
    | fields => return .table [] fields
  | _ => none

def expressions? : List Datum → Option (List Expression)
  | [] => some []
  | d :: rest => do return (← expression? d) :: (← expressions? rest)

def fields? : List (String × Datum) → Option (List (String × Expression))
  | [] => some []
  | (name, d) :: rest => do return (name, ← expression? d) :: (← fields? rest)

def tablePart? (name : String) : Datum → Option TablePart
  | .list items => if name = "seq" then (expressions? items).map .items else none
  | .record entries => if name = "map" then (fields? entries).map .fields else none
  | _ => none

def tableParts? : List (String × Datum) → Option (List TablePart)
  | [] => some []
  | (name, d) :: rest => do return (← tablePart? name d) :: (← tableParts? rest)

def statement? : Datum → Option Statement
  | .record fields => do statement (← parts? fields)
  | _ => none

def statements? : List Datum → Option Program
  | [] => some []
  | d :: rest => do return (← statement? d) :: (← statements? rest)

def parts? : List (String × Datum) → Option (List (String × Part))
  | [] => some []
  | (name, .list items) :: rest => do
    let part ← if blockNames.contains name then (statements? items).map .block
      else (expressions? items).map fun items => .value (.table items [])
    return (name, part) :: (← parts? rest)
  | (name, d) :: rest => do return (name, .value (← expression? d)) :: (← parts? rest)

end

namespace Program

def version : String := "1"

def form (steps : List Datum) : Datum := .record [("script", .number version), ("steps", .list steps)]

def ofDatum? : Datum → Option Program
  | .record [("script", .number v), ("steps", .list steps)] =>
    if v = version then statements? steps else none
  | _ => none

-- A text with nothing in it is a program. Others are in the form of steps, or else in that of the language.
def read? (s : String) : Option Program :=
  if s.toList.all Source.isSpace then some []
  else (Json.read? s).bind ofDatum? <|> (Source.steps? s).bind statements?

end Program

end ContainerRecipe.Script
