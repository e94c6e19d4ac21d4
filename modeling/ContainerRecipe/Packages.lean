import ContainerRecipe.Packages.Apt
import ContainerRecipe.Packages.Yum

namespace ContainerRecipe

def PackageRequest.commands (r : PackageRequest) (t : Target) : Logged (List String) :=
  match t.packageFamily with
  | .deb => pure (Apt.commands r)
  | .rpm => Yum.commands t r

def PackageRequest.install (r : PackageRequest) (t : Target) : Logged (List Instruction) := do
  let commands ← r.commands t
  return if commands.isEmpty then [] else [.shell { commands }]

end ContainerRecipe
