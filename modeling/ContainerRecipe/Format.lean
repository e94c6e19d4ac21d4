import ContainerRecipe.NameError

namespace ContainerRecipe

inductive Format where
  | docker
  | singularity
  | bash
  deriving DecidableEq, Repr

namespace Format

def all : List Format := [.docker, .singularity, .bash]

def text : Format → String
  | .docker => "docker"
  | .singularity => "singularity"
  | .bash => "bash"

def ofName? (s : String) : Option Format :=
  match s.toLower with
  | "docker" => some .docker
  | "singularity" | "apptainer" => some .singularity
  | "bash" => some .bash
  | _ => none

def parse (s : String) : Except NameError Format :=
  match ofName? s with
  | some f => .ok f
  | none => .error (.unknownFormat s)

end Format

end ContainerRecipe
