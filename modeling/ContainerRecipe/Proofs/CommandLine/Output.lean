import ContainerRecipe.CommandLine
import ContainerRecipe.Proofs.CommandLine.Request
import ContainerRecipe.Proofs.FileTree

namespace ContainerRecipe.CommandLine

section

namespace Command

variable (report : Report)

end Command

end

section

variable {r : RenderRequest} {tree : FileTree} {library : Script.Library}

-- The text that a request comes to.
def rendered (r : RenderRequest) (tree : FileTree) (library : Script.Library) : Outcome CommandError String := do
  let recipe ← (Evaluation.recipe r.options tree r.recipe library).mapError (.evaluate r.recipe)
  return (← document r recipe) ++ "\n"

-- What the recipe of a request has the library do.
def callsOf (r : RenderRequest) (tree : FileTree) (library : Script.Library) : List Script.LibraryCall :=
  Evaluation.calls r.options tree r.recipe library

-- What there is by the time that the text of a request is there, or fails to be.
def evaluated (r : RenderRequest) (tree : FileTree) (library : Script.Library) : Report where
  printed := library.printedBy tree (callsOf r tree library)
  warnings := (rendered r tree library).warnings
  tree := library.filesAfter tree (callsOf r tree library)

end

section

variable {words : List String} {r : RenderRequest}

end

end ContainerRecipe.CommandLine
