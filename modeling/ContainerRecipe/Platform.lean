import ContainerRecipe.Platform.Architecture
import ContainerRecipe.Platform.Release

namespace ContainerRecipe

structure Platform where
  architecture : Architecture
  distribution : Distribution
  version : Version
  deriving DecidableEq, Repr

def Platform.text (p : Platform) : String :=
  p.architecture.text ++ "-" ++ p.distribution.text ++ p.distribution.versionLabel p.version

end ContainerRecipe
