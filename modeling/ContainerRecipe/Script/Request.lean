import ContainerRecipe.Instruction.Layout
import ContainerRecipe.Target

namespace ContainerRecipe.Script

structure StageRequest where
  image : String
  name : Option String := none
  release : Option Release := none
  architecture : Option Architecture := none
  packageFamily : Option PackageFamily := none
  dockerEnvironment : Option Bool := none
  bootstrap : Option String := none
  deriving DecidableEq, Repr

namespace StageRequest

def layout : Layout StageRequest where
  blank := { image := "" }
  fields :=
    [.required "image" .text image fun v s => { s with image := v },
      .optional "name" .text name fun v s => { s with name := v },
      .optional "distro" .release release fun v s => { s with release := v },
      .optional "arch" .architecture architecture fun v s => { s with architecture := v },
      .optional "package_type" .packageFamily packageFamily fun v s =>
        { s with packageFamily := v },
      .optional "docker_env" .flag dockerEnvironment fun v s => { s with dockerEnvironment := v },
      .optional "bootstrap" .text bootstrap fun v s => { s with bootstrap := v }]

def base (r : StageRequest) : BaseImage :=
  let plain : BaseImage := { image := r.image, release := r.release, architecture := r.architecture }
  { plain with
    dockerEnvironment := r.dockerEnvironment.getD plain.dockerEnvironment
    bootstrap := r.bootstrap.getD plain.bootstrap }

end StageRequest

structure CopyRequest where
  sources : Option (List String) := none
  destination : Option String := none
  files : Bindings := ∅
  source : Option String := none
  owner : Option String := none
  exclude : List String := []
  app : Option String := none
  deriving DecidableEq, Repr

namespace CopyRequest

-- One source, or a list of sources that is not empty. What is asked for is settled by the form of the datum,
-- so a part of it that is no data is met first.
def sourcesCodec : Codec (List String) where
  write
    | [one] => .text one
    | many => Codec.texts.write many
  read
    | .text one => .ok [one]
    | d =>
      match d.obstacle?, Codec.texts.read d with
      | some e, _ => .error e
      | none, .ok (first :: rest) => .ok (first :: rest)
      | none, _ => .error .noVariant

def layout : Layout CopyRequest where
  blank := {}
  fields :=
    [.optional "src" sourcesCodec sources fun v s => { s with sources := v },
      .optional "dest" .text destination fun v s => { s with destination := v },
      .default "files" .bindings files fun v s => { s with files := v },
      .optional "from" .text source fun v s => { s with source := v },
      .optional "chown" .text owner fun v s => { s with owner := v },
      .default "exclude" .texts exclude fun v s => { s with exclude := v },
      .optional "app" .text app fun v s => { s with app := v }]

def copyOf (r : CopyRequest) (entries : List CopyEntry) : Copy :=
  { entries, source := r.source, owner := r.owner, exclude := r.exclude, app := r.app }

def fileEntries (r : CopyRequest) : List CopyEntry :=
  r.files.entries.map fun (source, destination) => ⟨[source], destination⟩

end CopyRequest

def excludeLayout : Layout (List String) where
  blank := []
  fields := [.default "exclude" .texts id fun v _ => v]

end ContainerRecipe.Script
