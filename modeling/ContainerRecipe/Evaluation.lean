import ContainerRecipe.Script.Run

namespace ContainerRecipe

inductive EvaluationError where
  | notFound (path : String)
  | script (fault : Script.Fault)
  | noStages (path : String)
  deriving DecidableEq, Repr

def EvaluationError.message : EvaluationError → String
  | .notFound path => "recipe not found: " ++ path
  | .script fault => "lua error: " ++ fault.message
  | .noStages path => "recipe " ++ path ++ " does not define any stage"

namespace Evaluation

def leadsToFile (tree : FileTree) (path : String) : Bool :=
  match tree.resolve path with
  | .ok p => tree.isFile p
  | .error _ => false

section

variable (o : Options) (tree : FileTree) (path : String) (library : Script.Library := .basic)

-- Runs a recipe file in a session of its own. Modules are looked for beside it first.
def run : Except Script.Fault (List Script.Value) × Script.Session :=
  (Script.Session.start o (FileTree.parent path)).step { options := o, tree, library } (Script.load (.file path))

-- What the recipe asks the library for, the last call first.
def calls : List Script.LibraryCall := if leadsToFile tree path then (run o tree path library).2.calls else []

def recipe : Outcome EvaluationError Recipe :=
  if !leadsToFile tree path then throw (.notFound path)
  else
    let (result, session) := run o tree path library
    { warnings := session.warnings
      result := match result with
        | .error fault => .error (.script fault)
        | .ok _ => if session.recipe.stages.isEmpty then .error (.noStages path) else .ok session.recipe }

end

end Evaluation

end ContainerRecipe
