import ContainerRecipe.CommandLine.Argument
import ContainerRecipe.Options

namespace ContainerRecipe.CommandLine

inductive Emission where
  | text
  | json
  deriving DecidableEq, Repr

structure RenderRequest where
  recipe : String
  options : Options := {}
  merge : Bool := false
  out : Option String := none
  emission : Emission := .text
  deriving DecidableEq, Repr

inductive Request where
  | render (request : RenderRequest)
  | info (json : Bool)
  | version
  deriving DecidableEq, Repr

-- The first option that is given more than once. Only values of the user may be.
def firstRepeated : List Argument → Option String
  | [] => none
  | .switch s :: rest => if rest.contains (.switch s) then some s.long else firstRepeated rest
  | .parameter p _ :: rest =>
    let again := rest.any fun
      | .parameter q _ => q = p
      | _ => false
    if p ≠ .userarg && again then some p.long else firstRepeated rest
  | .operand _ :: rest => firstRepeated rest

def checkRepeated (arguments : List Argument) : Except UsageError Unit :=
  match firstRepeated arguments with
  | some option => .error (.repeated option)
  | none => .ok ()

namespace RenderRequest

def grammar : Grammar where
  switches := [.verbose, .merge]
  parameters :=
    [.format, .singularityVersion, .workingDirectory, .licensePolicy, .userarg, .out, .emit]

def pair? (value : String) : Option (String × String) :=
  match Text.cutFirst? '=' value.toList with
  | some ([], _) | none => none
  | some (name, rest) => some (String.ofList name, String.ofList rest)

def emission? : String → Option Emission
  | "text" => some .text
  | "json" => some .json
  | _ => none

def setParameter? (r : RenderRequest) (p : Parameter) (value : String) : Option RenderRequest :=
  match p with
  | .format => (Format.parse value).toOption.map fun v =>
    { r with options := { r.options with format := v } }
  | .singularityVersion => (Version.parse value).toOption.map fun v =>
    { r with options := { r.options with singularityVersion := v } }
  | .workingDirectory => some { r with options := { r.options with workingDirectory := value } }
  | .licensePolicy => (LicensePolicy.parse value).toOption.map fun v =>
    { r with options := { r.options with licensePolicy := v } }
  | .userarg => (pair? value).map fun (name, v) =>
    { r with options := { r.options with userarg := r.options.userarg.insert name v } }
  | .out => if value = "" then none else some { r with out := some value }
  | .emit => (emission? value).map fun v => { r with emission := v }

-- Goes on with one more argument. The first operand is the recipe, and there is no other.
def add (r : RenderRequest) : Argument → Except UsageError RenderRequest
  | .switch .merge => .ok { r with merge := true }
  | .switch _ => .ok r
  | .parameter p value =>
    match r.setParameter? p value with
    | some r => .ok r
    | none => .error (.invalidValue p.long value)
  | .operand word =>
    if word = "" then .error .noRecipe
    else if r.recipe = "" then .ok { r with recipe := word }
    else .error (.unknown word)

def read (words : List String) : Except UsageError RenderRequest := do
  let arguments ← grammar.arguments words
  checkRepeated arguments
  let r ← arguments.foldlM add { recipe := "" }
  if r.recipe = "" then throw .noRecipe
  return r

end RenderRequest

namespace Request

def infoGrammar : Grammar where
  switches := [.verbose, .json]

def readInfo (words : List String) : Except UsageError Request := do
  let arguments ← infoGrammar.arguments words
  checkRepeated arguments
  match arguments.findSome? Argument.operand? with
  | some word => throw (.unknown word)
  | none => return .info (arguments.contains (.switch .json))

def mainGrammar : Grammar where
  switches := [.verbose, .version]

-- Reads the words in front of the command and the command. The version is told as soon as it is asked for.
def readAfter (seen : List Argument) : List String → Except UsageError Request
  | [] => .error .noCommand
  | word :: rest =>
    if isOption word then do
      let (arguments, _) ← mainGrammar.options word []
      let seen := seen ++ arguments.takeWhile (· ≠ .switch .version)
      checkRepeated seen
      if arguments.contains (.switch .version) then return .version
      readAfter seen rest
    else match word with
      | "render" => Request.render <$> RenderRequest.read rest
      | "info" => readInfo rest
      | word => .error (.unknown word)

def read (words : List String) : Except UsageError Request := readAfter [] words

end Request

end ContainerRecipe.CommandLine
