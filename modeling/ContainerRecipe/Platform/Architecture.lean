import ContainerRecipe.NameError
import ContainerRecipe.Text.Parts

namespace ContainerRecipe

inductive Architecture where
  | x86_64
  | aarch64
  | ppc64le
  deriving DecidableEq, Repr

namespace Architecture

def all : List Architecture := [.x86_64, .aarch64, .ppc64le]

def text : Architecture → String
  | .x86_64 => "x86_64"
  | .aarch64 => "aarch64"
  | .ppc64le => "ppc64le"

def ofName? (s : String) : Option Architecture :=
  match s.toLower with
  | "x86_64" | "amd64" | "x86-64" => some .x86_64
  | "aarch64" | "arm64" => some .aarch64
  | "ppc64le" | "ppc64el" => some .ppc64le
  | _ => none

def parse (s : String) : Except NameError Architecture :=
  match ofName? s with
  | some a => .ok a
  | none => .error (.unknownArchitecture s)

-- The architecture that an image reference such as `arm64v8/ubuntu:22.04` names. When several are named the
-- rarer one is meant.
def ofImage? (image : String) : Option Architecture :=
  let mentions name := Text.occursIn (String.toList name) image.toLower.toList
  if mentions "aarch64" || mentions "arm64" then some .aarch64
  else if mentions "ppc64le" then some .ppc64le
  else if mentions "x86_64" || mentions "amd64" then some .x86_64
  else none

end Architecture

end ContainerRecipe
