import ContainerRecipe.Target

namespace ContainerRecipe

inductive RenderError where
  | needsSingularity (feature : String) (required found : Version)
  -- Temporary destinations are staged on the host, and a stage's files are not there.
  | temporaryDestination (destination stage : String)
  | appFromStage (app stage : String)
  | unbalancedQuotes (command : String)
  deriving DecidableEq, Repr

def RenderError.message : RenderError → String
  | .needsSingularity feature required found =>
    feature ++ " requires Singularity " ++ required.text ++ " or later (targeting " ++ found.text ++ ")"
  | .temporaryDestination destination stage =>
    "cannot copy to " ++ destination ++ " from stage '" ++ stage ++
      "': /tmp destinations are staged on the host, outside any stage"
  | .appFromStage app stage => "%appfiles " ++ app ++ " cannot copy from stage '" ++ stage ++ "'"
  | .unbalancedQuotes command => "cannot split runscript command into words: " ++ command

def Target.requireSingularity (t : Target) (feature : String) (required : Version) :
    Outcome RenderError Unit :=
  if t.singularityVersion < required then
    throw (.needsSingularity feature required t.singularityVersion)
  else pure ()

end ContainerRecipe
