import ContainerRecipe.Datum
import ContainerRecipe.Script.Source.Token

namespace ContainerRecipe.Script.Source

-- The names that are no names of variables. The table of the global ones is not at hand.
def reserved : List String :=
  ["_ENV", "and", "break", "do", "else", "elseif", "end", "false", "for", "function", "goto", "if", "in", "local",
    "nil", "not", "or", "repeat", "return", "then", "true", "until", "while"]

def operation (name : String) (operands : List Datum) : Datum := .record [(name, .list operands)]

-- A name is that of a parameter around, or else a global one. Each file has a directory of its own.
def named (scope : List String) (n : String) : Datum :=
  if scope.contains n then .record [("$var", .text n)]
  else if n = "__dir" then .record [("$dir", .flag true)]
  else .record [("$global", .text n)]

def isCall : Datum → Bool
  | .record [(name, _)] => name = "$call" || name = "$method"
  | _ => false

-- Assigns to a parameter, a global name or a field.
def assignment? (target value : Datum) : Option Datum :=
  match target with
  | .record [("$var", name)] => some (.record [("let", name), ("be", value)])
  | .record [("$global", name)] =>
    some (.record [("set", .record [("$global", .text "_G")]), ("field", name), ("value", value)])
  | .record [("$get", .list [subject, key])] =>
    some (.record [("set", subject), ("field", key), ("value", value)])
  | _ => none

-- How strongly an operator binds what stands before it and what stands behind it.
def operator? : Token → Option (Nat × Nat × String)
  | .name "or" => some (1, 1, "$or")
  | .equal => some (3, 3, "$eq")
  | .joined => some (9, 8, "$cat")
  | _ => none

def parameters? : List Token → Option (List String × List Token)
  | .mark ')' :: rest => some ([], rest)
  | .name n :: .mark ')' :: rest => if reserved.contains n then none else some ([n], rest)
  | .name n :: .mark ',' :: .name next :: rest => do
    if reserved.contains n then none
    let (names, rest) ← parameters? (.name next :: rest)
    return (n :: names, rest)
  | _ => none

def expect? (t : Token) : List Token → Option (List Token)
  | next :: rest => if next = t then some rest else none
  | [] => none

def separated (tokens : List Token) : List Token :=
  match tokens with
  | .mark ',' :: rest | .mark ';' :: rest => rest
  | _ => tokens

mutual

-- Reads an expression, with the operators in it that bind more strongly than `limit`.
def expression? (scope : List String) : Nat → Nat → List Token → Option (Datum × List Token)
  | 0, _, _ => none
  | bound + 1, limit, tokens => do
    let (left, rest) ← simple? scope bound tokens
    operators? scope bound limit left rest

def operators? (scope : List String) : Nat → Nat → Datum → List Token → Option (Datum × List Token)
  | 0, _, _, _ => none
  | _, _, left, [] => some (left, [])
  | bound + 1, limit, left, t :: rest =>
    match operator? t with
    | some (before, behind, name) =>
      if limit < before then do
        let (right, rest) ← expression? scope bound behind rest
        operators? scope bound limit (operation name [left, right]) rest
      else some (left, t :: rest)
    | none => some (left, t :: rest)

def simple? (scope : List String) : Nat → List Token → Option (Datum × List Token)
  | 0, _ => none
  | bound + 1, tokens =>
    match tokens with
    | .number n :: rest => if n < 2 ^ 63 then some (.number (Nat.repr n), rest) else none
    | .text s :: rest => some (.text s, rest)
    | .name "nil" :: rest => some (.null, rest)
    | .name "true" :: rest => some (.flag true, rest)
    | .name "false" :: rest => some (.flag false, rest)
    | .mark '\x7b' :: rest => table? scope bound rest
    | .name "function" :: .mark '(' :: rest => do
      let (names, rest) ← parameters? rest
      let (body, rest) ← block? (names ++ scope) bound rest
      let rest ← expect? (.name "end") rest
      let parts := [("parameters", Datum.list (names.map .text)), ("body", .list body)]
      return (.record [("$function", .record parts)], rest)
    | tokens => suffixed? scope bound tokens

-- Brackets around a call would leave one of its values.
def suffixed? (scope : List String) : Nat → List Token → Option (Datum × List Token)
  | bound + 1, .name n :: rest =>
    if reserved.contains n then none else suffixes? scope bound (named scope n) rest
  | bound + 1, .mark '(' :: rest => do
    let (e, rest) ← expression? scope bound 0 rest
    let rest ← expect? (.mark ')') rest
    let (d, behind) ← suffixes? scope bound e rest
    if isCall e && behind.length = rest.length then none else some (d, behind)
  | _, _ => none

def suffixes? (scope : List String) : Nat → Datum → List Token → Option (Datum × List Token)
  | 0, _, _ => none
  | bound + 1, subject, tokens =>
    match tokens with
    | .mark '.' :: .name n :: rest =>
      if reserved.contains n then none else suffixes? scope bound (operation "$get" [subject, .text n]) rest
    | .mark '[' :: rest => do
      let (key, rest) ← expression? scope bound 0 rest
      suffixes? scope bound (operation "$get" [subject, key]) (← expect? (.mark ']') rest)
    | .mark ':' :: .name n :: rest => do
      if reserved.contains n then none
      let (arguments, rest) ← arguments? scope bound rest
      suffixes? scope bound (operation "$method" (subject :: .text n :: arguments)) rest
    | .mark '(' :: _ | .mark '\x7b' :: _ | .text _ :: _ => do
      let (arguments, rest) ← arguments? scope bound tokens
      suffixes? scope bound (operation "$call" (subject :: arguments)) rest
    | tokens => some (subject, tokens)

def arguments? (scope : List String) : Nat → List Token → Option (List Datum × List Token)
  | bound + 1, .mark '\x7b' :: rest => (table? scope bound rest).map fun (t, rest) => ([t], rest)
  | _ + 1, .text s :: rest => some ([.text s], rest)
  | _ + 1, .mark '(' :: .mark ')' :: rest => some ([], rest)
  | bound + 1, .mark '(' :: rest => do
    let (arguments, rest) ← expressions? scope bound rest
    return (arguments, ← expect? (.mark ')') rest)
  | _, _ => none

def expressions? (scope : List String) : Nat → List Token → Option (List Datum × List Token)
  | 0, _ => none
  | bound + 1, tokens => do
    match ← expression? scope bound 0 tokens with
    | (e, .mark ',' :: rest) =>
      let (es, rest) ← expressions? scope bound rest
      return (e :: es, rest)
    | (e, rest) => return ([e], rest)

-- Reads what follows an opening brace. All that has no name has to stand first.
def table? (scope : List String) : Nat → List Token → Option (Datum × List Token)
  | 0, _ => none
  | bound + 1, tokens => do
    let (items, rest) ← items? scope bound tokens
    let (fields, rest) ← fields? scope bound rest
    let d := if fields.isEmpty then .list items
      else .record [("$table", .record [("seq", .list items), ("map", .record fields)])]
    return (d, ← expect? (.mark '\x7d') rest)

def items? (scope : List String) : Nat → List Token → Option (List Datum × List Token)
  | 0, _ => none
  | bound + 1, tokens =>
    match tokens with
    | .mark '\x7d' :: _ | .name _ :: .mark '=' :: _ | .mark '[' :: _ => some ([], tokens)
    | tokens => do
      let (e, rest) ← expression? scope bound 0 tokens
      if (separated rest).length = rest.length then return ([e], rest)
      let (es, rest) ← items? scope bound (separated rest)
      return (e :: es, rest)

def fields? (scope : List String) : Nat → List Token → Option (List (String × Datum) × List Token)
  | bound + 1, .name n :: .mark '=' :: rest =>
    if reserved.contains n then none else field? scope n bound rest
  | bound + 1, .mark '[' :: .text n :: .mark ']' :: .mark '=' :: rest => field? scope n bound rest
  | _, tokens => some ([], tokens)

def field? (scope : List String) (n : String) : Nat → List Token → Option (List (String × Datum) × List Token)
  | 0, _ => none
  | bound + 1, tokens => do
    let (e, rest) ← expression? scope bound 0 tokens
    if (separated rest).length = rest.length then return ([(n, e)], rest)
    let (fields, rest) ← fields? scope bound (separated rest)
    return ((n, e) :: fields, rest)

-- Reads statements up to the end of what they stand in.
def block? (scope : List String) : Nat → List Token → Option (List Datum × List Token)
  | 0, _ => none
  | bound + 1, tokens =>
    match tokens with
    | [] | .name "end" :: _ | .name "else" :: _ => some ([], tokens)
    | .mark ';' :: rest => block? scope bound rest
    | .name "return" :: rest => do
      let (e, rest) ← expression? scope bound 0 rest
      return ([.record [("return", e)]], if rest.head? = some (.mark ';') then rest.tail else rest)
    | tokens => do
      let (d, rest) ← statement? scope bound tokens
      let (ds, rest) ← block? scope bound rest
      return (d :: ds, rest)

def statement? (scope : List String) : Nat → List Token → Option (Datum × List Token)
  | bound + 1, .name "if" :: rest => do
    let (condition, rest) ← expression? scope bound 0 rest
    let (whenTrue, rest) ← block? scope bound (← expect? (.name "then") rest)
    let (whenFalse, rest) ← match rest with
      | .name "else" :: rest => block? scope bound rest
      | rest => some ([], rest)
    let d := .record [("if", condition), ("then", .list whenTrue), ("else", .list whenFalse)]
    return (d, ← expect? (.name "end") rest)
  | bound + 1, .name n :: rest => do
    match ← suffixed? scope bound (.name n :: rest) with
    | (target, .mark '=' :: rest) =>
      let (value, rest) ← expression? scope bound 0 rest
      return (← assignment? target value, rest)
    | (d, rest) => if isCall d then some (.record [("do", d)], rest) else none
  | _, _ => none

end

-- The steps that a text stands for, of that part of the language whose names are parameters or global. A text
-- that is one expression has its value.
def steps? (s : String) : Option (List Datum) := do
  let tokens ← tokens? s
  let bound := 8 * (tokens.length + 1)
  match expression? [] bound 0 tokens with
  | some (e, []) | some (e, [.mark ';']) => return [.record [("return", e)]]
  | _ =>
    match ← block? [] bound tokens with
    | (steps, []) => return steps
    | _ => none

end ContainerRecipe.Script.Source
