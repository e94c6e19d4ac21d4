import ContainerRecipe.Number
import ContainerRecipe.Script.Builtin

namespace ContainerRecipe.Script

inductive Value where
  | nil
  | flag (b : Bool)
  | number (n : Number)
  | bytes (content : ByteArray)
  | table (place : Nat)
  | stage (index : Nat)
  | function (f : Function)

-- The instance that keys are compared with, whatever other ones are at hand.
instance bytesDecidableEq : DecidableEq ByteArray := ByteArray.instDecidableEq

inductive Key where
  | flag (b : Bool)
  | integer (n : Int64)
  | real (bits : UInt64)
  | bytes (content : ByteArray)
  | table (place : Nat)
  | stage (index : Nat)
  | function (f : Function)
  deriving DecidableEq

def Key.ofPlace (n : Nat) : Key := .integer (Int64.ofNat n)

def Key.ofText (s : String) : Key := .bytes s.toUTF8

namespace Value

instance : Inhabited Value := ⟨.nil⟩

def text (s : String) : Value := .bytes s.toUTF8

def ofText? : Option String → Value
  | some s => text s
  | none => .nil

def truthy : Value → Bool
  | .nil | .flag false => false
  | _ => true

def isNil : Value → Bool
  | .nil => true
  | _ => false

-- The key that a value stands for. A number that is an integer is the key of that integer.
def key? : Value → Option Key
  | .nil => none
  | .flag b => some (.flag b)
  | .number (.integer n) => some (.integer n)
  | .number (.real x) =>
    match (Number.toInt? x).bind Number.toInt64? with
    | some n => some (.integer n)
    | none => if x.isNaN then none else some (.real x.toBits)
  | .bytes content => some (.bytes content)
  | .table place => some (.table place)
  | .stage index => some (.stage index)
  | .function f => some (.function f)

def same (a b : Value) : Bool :=
  match key? a, key? b with
  | some k, some l => k = l
  | none, none => a.isNil && b.isNil
  | _, _ => false

def bytes? : Value → Option ByteArray
  | .bytes content => some content
  | .number n => some n.text.toUTF8
  | _ => none

def text? (v : Value) : Option String := v.bytes?.bind String.fromUTF8?

def typeName : Value → String
  | .nil => "nil"
  | .flag _ => "boolean"
  | .number (.integer _) => "integer"
  | .number (.real _) => "number"
  | .bytes _ => "string"
  | .table _ => "table"
  | .stage _ => "userdata"
  | .function _ => "function"

end Value

namespace Key

def toValue : Key → Value
  | .flag b => .flag b
  | .integer n => .number (.integer n)
  | .real bits => .number (.real (Float.ofBits bits))
  | .bytes content => .bytes content
  | .table place => .table place
  | .stage index => .stage index
  | .function f => .function f

end Key

def argument (arguments : List Value) (place : Nat) : Value := arguments.getD place .nil

end ContainerRecipe.Script
