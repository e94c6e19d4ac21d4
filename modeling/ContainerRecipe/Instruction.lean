import ContainerRecipe.Bindings
import ContainerRecipe.Platform.Architecture
import ContainerRecipe.Platform.Release

namespace ContainerRecipe

-- The image a stage starts from. The overrides win over what the image reference tells.
structure BaseImage where
  image : String
  stage : Option String := none
  release : Option Release := none
  architecture : Option Architecture := none
  dockerEnvironment : Bool := true
  bootstrap : String := "docker"
  deriving DecidableEq, Repr

structure Shell where
  commands : List String
  fromRoot : Bool := false
  app : Option String := none
  deriving DecidableEq, Repr

def Shell.effective (s : Shell) : List String := s.commands.filter (· ≠ "")

structure CopyEntry where
  sources : List String
  destination : String
  deriving DecidableEq, Repr

def isTemporary (path : String) : Bool :=
  ["/tmp", "/var/tmp"].any fun directory =>
    path == directory || (directory ++ "/").toList.isPrefixOf path.toList

structure Copy where
  entries : List CopyEntry
  source : Option String := none
  owner : Option String := none
  exclude : List String := []
  app : Option String := none
  deriving DecidableEq, Repr

def Copy.effective (c : Copy) : List CopyEntry := c.entries.filter fun entry => !entry.sources.isEmpty

structure Environment where
  bindings : Bindings
  exported : Bool := false
  app : Option String := none
  deriving DecidableEq, Repr

structure Labels where
  bindings : Bindings
  app : Option String := none
  deriving DecidableEq, Repr

structure Comment where
  text : String
  reformat : Bool := true
  app : Option String := none
  deriving DecidableEq, Repr

structure Verbatim where
  docker : Option String := none
  singularity : Option String := none
  deriving DecidableEq, Repr

structure Workdir where
  directory : String
  app : Option String := none
  deriving DecidableEq, Repr

structure User where
  name : String
  deriving DecidableEq, Repr

-- Build arguments. An empty value declares the argument without a default.
structure Arguments where
  bindings : Bindings
  deriving DecidableEq, Repr

structure Runscript where
  commands : List String
  exec : Bool := true
  app : Option String := none
  deriving DecidableEq, Repr

structure Fragment where
  docker : Option String := none
  singularity : Option String := none
  deriving DecidableEq, Repr

inductive Instruction where
  | baseImage (base : BaseImage)
  | shell (shell : Shell)
  | copy (copy : Copy)
  | environment (environment : Environment)
  | labels (labels : Labels)
  | comment (comment : Comment)
  | verbatim (verbatim : Verbatim)
  | workdir (workdir : Workdir)
  | user (user : User)
  | arguments (arguments : Arguments)
  | runscript (runscript : Runscript)
  | fragment (fragment : Fragment)
  deriving DecidableEq, Repr

namespace Instruction

def kind : Instruction → String
  | .baseImage _ => "base_image"
  | .shell _ => "shell"
  | .copy _ => "copy"
  | .environment _ => "environment"
  | .labels _ => "label"
  | .comment _ => "comment"
  | .verbatim _ => "raw"
  | .workdir _ => "workdir"
  | .user _ => "user"
  | .arguments _ => "arg"
  | .runscript _ => "runscript"
  | .fragment _ => "blob"

def app : Instruction → Option String
  | .shell s => s.app
  | .copy c => c.app
  | .environment e => e.app
  | .labels l => l.app
  | .comment c => c.app
  | .workdir w => w.app
  | .runscript r => r.app
  | .baseImage _ | .verbatim _ | .user _ | .arguments _ | .fragment _ => none

def mergeable : Instruction → Bool
  | .shell _ | .copy _ | .environment _ | .labels _ | .comment _ | .arguments _ | .runscript _ => true
  | .baseImage _ | .verbatim _ | .workdir _ | .user _ | .fragment _ => false

end Instruction

end ContainerRecipe
