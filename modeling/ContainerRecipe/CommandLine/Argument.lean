import ContainerRecipe.Text.Parts

namespace ContainerRecipe.CommandLine

inductive Switch where
  | verbose
  | version
  | json
  | merge
  deriving DecidableEq, Repr

inductive Parameter where
  | format
  | singularityVersion
  | workingDirectory
  | licensePolicy
  | userarg
  | out
  | emit
  deriving DecidableEq, Repr

def Switch.long : Switch → String
  | .verbose => "verbose"
  | .version => "version"
  | .json => "json"
  | .merge => "merge"

def Switch.short? : Switch → Option Char
  | .verbose => some 'v'
  | .version => some 'V'
  | .json | .merge => none

def Parameter.long : Parameter → String
  | .format => "format"
  | .singularityVersion => "singularity-version"
  | .workingDirectory => "working-directory"
  | .licensePolicy => "license-policy"
  | .userarg => "userarg"
  | .out => "out"
  | .emit => "emit"

def Parameter.short? : Parameter → Option Char
  | .format => some 'f'
  | .out => some 'o'
  | _ => none

inductive UsageError where
  | unknown (word : String)
  | missingValue (option : String)
  | unexpectedValue (option : String)
  | repeated (option : String)
  | invalidValue (option value : String)
  | noCommand
  | noRecipe
  deriving DecidableEq, Repr

def UsageError.message : UsageError → String
  | .unknown word => "unexpected argument '" ++ word ++ "'"
  | .missingValue option => "a value is required for '" ++ option ++ "'"
  | .unexpectedValue option => "no value is expected for '" ++ option ++ "'"
  | .repeated option => "'" ++ option ++ "' cannot be used more than once"
  | .invalidValue option value => "invalid value '" ++ value ++ "' for '" ++ option ++ "'"
  | .noCommand => "a command is required"
  | .noRecipe => "a recipe is required"

inductive Argument where
  | switch (s : Switch)
  | parameter (p : Parameter) (value : String)
  | operand (word : String)
  deriving DecidableEq, Repr

def Argument.operand? : Argument → Option String
  | .operand word => some word
  | _ => none

structure Grammar where
  switches : List Switch
  parameters : List Parameter := []

-- Whether a word names options. A dash alone does not.
def isOption (word : String) : Bool := Text.startsWith "-" word && word ≠ "-"

namespace Grammar

def nextValue (p : Parameter) : List String → Except UsageError (String × List String)
  | [] => .error (.missingValue p.long)
  | word :: rest => if isOption word then .error (.missingValue p.long) else .ok (word, rest)

def longOption (g : Grammar) (word : String) (rest : List String) :
    Except UsageError (Argument × List String) :=
  let (name, value?) := match Text.cutFirst? '=' (word.toList.drop 2) with
    | some (name, value) => (String.ofList name, some (String.ofList value))
    | none => (String.ofList (word.toList.drop 2), none)
  match g.switches.find? (·.long = name), g.parameters.find? (·.long = name), value? with
  | some s, _, none => .ok (.switch s, rest)
  | some s, _, some _ => .error (.unexpectedValue s.long)
  | none, some p, some value => .ok (.parameter p value, rest)
  | none, some p, none => do
    let (value, rest) ← nextValue p rest
    return (.parameter p value, rest)
  | none, none, _ => .error (.unknown word)

def shortOptions (g : Grammar) :
    List Char → List String → Except UsageError (List Argument × List String)
  | [], rest => .ok ([], rest)
  | c :: cs, rest =>
    match g.switches.find? (·.short? = some c), g.parameters.find? (·.short? = some c) with
    | some s, _ =>
      -- The version is told at once, whatever stands behind its letter.
      if s = .version then .ok ([.switch s], rest)
      else do
        let (others, rest) ← g.shortOptions cs rest
        return (.switch s :: others, rest)
    | none, some p =>
      match cs with
      | [] => do
        let (value, rest) ← nextValue p rest
        return ([.parameter p value], rest)
      | '=' :: value => .ok ([.parameter p (String.ofList value)], rest)
      | value => .ok ([.parameter p (String.ofList value)], rest)
    | none, none => .error (.unknown (String.ofList ['-', c]))

def options (g : Grammar) (word : String) (rest : List String) :
    Except UsageError (List Argument × List String) :=
  if Text.startsWith "--" word then do
    let (argument, rest) ← g.longOption word rest
    return ([argument], rest)
  else g.shortOptions (word.toList.drop 1) rest

def argumentsWithin (g : Grammar) : Nat → List String → Except UsageError (List Argument)
  | 0, _ | _, [] => .ok []
  | bound + 1, word :: rest =>
    if word = "--" then .ok (rest.map .operand)
    else if isOption word then do
      let (arguments, rest) ← g.options word rest
      return arguments ++ (← g.argumentsWithin bound rest)
    else do return .operand word :: (← g.argumentsWithin bound rest)

def arguments (g : Grammar) (words : List String) : Except UsageError (List Argument) :=
  g.argumentsWithin words.length words

end Grammar

end ContainerRecipe.CommandLine
