import ContainerRecipe.Render.Definition
import ContainerRecipe.Render.Dockerfile
import ContainerRecipe.Render.HostScript

namespace ContainerRecipe

def Instruction.render (t : Target) (p : Instruction) : Outcome RenderError String :=
  match t.format with
  | .docker => Dockerfile.write p
  | .singularity => Definition.write t p
  | .bash => HostScript.write p

end ContainerRecipe
