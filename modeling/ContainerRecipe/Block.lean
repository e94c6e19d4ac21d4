import ContainerRecipe.Block.Autotools
import ContainerRecipe.Block.Gnu
import ContainerRecipe.Block.Nvhpc

namespace ContainerRecipe

inductive Block where
  | packages (request : PackageRequest)
  | gnu (gnu : Gnu)
  | nvhpc (nvhpc : Nvhpc)
  | autotools (autotools : Autotools)

namespace Block

-- The name in messages, by which a block can be left out of a runtime stage.
def name : Block → String
  | .packages _ => "packages"
  | .gnu _ => Gnu.name
  | .nvhpc _ => Nvhpc.name
  | .autotools a => a.name

def install (t : Target) : Block → Outcome BlockError (List Instruction)
  | .packages r => r.install t
  | .gnu g => g.install t
  | .nvhpc n => n.install t
  | .autotools a => .ofExcept (a.build t)

def runtime (t : Target) (source : String) : Block → Outcome BlockError (List Instruction)
  | .packages _ => pure []
  | .gnu g => g.runtime t
  | .nvhpc n => n.runtime t source
  | .autotools a => .ofExcept (a.runtime source)

end Block

end ContainerRecipe
