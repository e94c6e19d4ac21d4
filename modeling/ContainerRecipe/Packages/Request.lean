import ContainerRecipe.Instruction.Layout
import ContainerRecipe.Text.Blank

namespace ContainerRecipe

structure PackageRequest where
  common : List String := []
  apt : Option (List String) := none
  yum : Option (List String) := none
  aptKeys : List String := []
  aptPpas : List String := []
  aptRepositories : List String := []
  yumKeys : List String := []
  yumRepositories : List String := []
  epel : Bool := false
  powertools : Bool := false
  scl : Bool := false
  yum4 : Option Bool := none
  deriving DecidableEq, Repr

namespace PackageRequest

def layout : Layout PackageRequest where
  blank := {}
  fields :=
    [.default "ospackages" .texts common fun v s => { s with common := v },
      .default "apt" Codec.texts.nullable apt fun v s => { s with apt := v },
      .default "yum" Codec.texts.nullable yum fun v s => { s with yum := v },
      .default "apt_keys" .texts aptKeys fun v s => { s with aptKeys := v },
      .default "apt_ppas" .texts aptPpas fun v s => { s with aptPpas := v },
      .default "apt_repositories" .texts aptRepositories fun v s => { s with aptRepositories := v },
      .default "yum_keys" .texts yumKeys fun v s => { s with yumKeys := v },
      .default "yum_repositories" .texts yumRepositories fun v s => { s with yumRepositories := v },
      .default "epel" .flag epel fun v s => { s with epel := v },
      .default "powertools" .flag powertools fun v s => { s with powertools := v },
      .default "scl" .flag scl fun v s => { s with scl := v },
      .default "yum4" Codec.flag.nullable yum4 fun v s => { s with yum4 := v }]

def named (r : PackageRequest) : PackageFamily → List String
  | .deb => r.apt.getD r.common
  | .rpm => r.yum.getD r.common

def packages (r : PackageRequest) (family : PackageFamily) : List String :=
  (((r.named family).filter fun name => !Text.isBlankText name).mergeSort (· ≤ ·)).eraseReps

end PackageRequest

def installLine (command : String) (packages : List String) : String :=
  command ++ String.join (packages.map (" \\\n        " ++ ·))

end ContainerRecipe
