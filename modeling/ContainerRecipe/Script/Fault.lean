import ContainerRecipe.Block.Error
import ContainerRecipe.Datum
import ContainerRecipe.FileTree

namespace ContainerRecipe.Script

inductive Refusal where
  | noSuchStage (index : Nat)
  | foreignStages
  | ownRuntime
  | unnamedSource (index : Nat)
  | nameTaken (name : String)
  | copyWithoutDestination
  | copyWithoutSource
  | notCommands (typeName : String)
  | unreadableFragment (cause : FileError)
  | unresolved (path : String) (cause : FileError)
  | unreadable (path : String) (cause : FileError)
  | fileWithoutPath
  | loadWithoutRun
  deriving DecidableEq, Repr

def Refusal.message : Refusal → String
  | .noSuchStage index => "stage " ++ Nat.repr index ++ " does not exist"
  | .foreignStages => "runtime() needs two stages of the same recipe"
  | .ownRuntime => "a stage cannot take the runtime of itself"
  | .unnamedSource index =>
    "stage " ++ Nat.repr index ++ " needs a name before Singularity stages can copy from it"
  | .nameTaken name => "stage name '" ++ name ++ "' is already used"
  | .copyWithoutDestination => "copy with 'src' needs a 'dest'"
  | .copyWithoutSource => "copy needs 'src' and 'dest', or 'files'"
  | .notCommands typeName => "expected a command string or a list of commands, got " ++ typeName
  | .unreadableFragment cause => "cannot read blob: " ++ cause.message
  | .unresolved path cause => "cannot resolve '" ++ path ++ "': " ++ cause.message
  | .unreadable path cause => "cannot read '" ++ path ++ "': " ++ cause.message
  | .fileWithoutPath => "dofile() needs a path"
  | .loadWithoutRun => "loadfile() is not available in recipes, use dofile()"

inductive Misuse where
  | call (typeName : String)
  | index (typeName : String)
  | store (typeName : String)
  | concat (typeName : String)
  | keyless
  | argument (typeName : String)
  | noModule (name : String)
  | tooDeep
  | raised (message : String)
  deriving DecidableEq, Repr

def Misuse.message : Misuse → String
  | .call typeName => "attempt to call a " ++ typeName ++ " value"
  | .index typeName => "attempt to index a " ++ typeName ++ " value"
  | .store typeName => "attempt to store into a " ++ typeName ++ " value"
  | .concat typeName => "attempt to concatenate a " ++ typeName ++ " value"
  | .keyless => "a table needs a key that is neither nil nor NaN"
  | .argument typeName => "a string is expected, got " ++ typeName
  | .noModule name => "module '" ++ name ++ "' not found"
  | .tooDeep => "files run each other too deeply"
  | .raised message => message

inductive Fault where
  | decode (cause : DecodeError)
  | conversion
  | block (cause : BlockError)
  | refusal (cause : Refusal)
  | misuse (cause : Misuse)
  | malformed (path : String)
  deriving DecidableEq, Repr

def Fault.message : Fault → String
  | .decode cause => cause.message
  | .conversion => "an argument is not of the expected type"
  | .block cause => cause.message
  | .refusal cause => cause.message
  | .misuse cause => cause.message
  | .malformed path => path ++ ": syntax error"

end ContainerRecipe.Script
