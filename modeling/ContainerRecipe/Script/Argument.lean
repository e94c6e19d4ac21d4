import ContainerRecipe.Packages.Request
import ContainerRecipe.Script.Session

namespace ContainerRecipe.Script

abbrev Decoded := Except Fault

namespace Value

def asText (v : Value) : Decoded String :=
  match v.text? with
  | some s => .ok s
  | none => .error .conversion

end Value

namespace Table

def asBindings (t : Table) : Decoded Bindings := do
  let entries ← t.pairs.mapM fun (k, v) => do return (← k.toValue.asText, ← v.asText)
  return .ofList entries

end Table

namespace Session

def record (s : Session) (l : Layout σ) (v : Value) : Decoded σ :=
  (l.read (s.datum v)).mapError .decode

def options (s : Session) (l : Layout σ) (v : Value) : Decoded σ :=
  if v.isNil then .ok l.blank else s.record l v

def commands (s : Session) : Value → Decoded (List String)
  | .bytes content => do return [← (Value.bytes content).asText]
  | .table place => (s.table place).itemsToGap.mapM Value.asText
  | v => .error (.refusal (.notCommands v.typeName))

def asTable (s : Session) : Value → Decoded Table
  | .table place => .ok (s.table place)
  | _ => .error .conversion

end Session

end ContainerRecipe.Script
