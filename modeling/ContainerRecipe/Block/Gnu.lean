import ContainerRecipe.Block.Error
import ContainerRecipe.Packages
import ContainerRecipe.Toolchain

namespace ContainerRecipe

structure Gnu where
  cc : Bool := true
  cxx : Bool := true
  fortran : Bool := true
  version : Option String := none
  extraRepository : Bool := false
  deriving DecidableEq, Repr

namespace Gnu

def name : String := "gnu"

def layout : Layout Gnu where
  blank := {}
  fields :=
    [.default "cc" .flag cc fun v s => { s with cc := v },
      .default "cxx" .flag cxx fun v s => { s with cxx := v },
      .default "fortran" .flag fortran fun v s => { s with fortran := v },
      .default "version" Codec.text.nullable version fun v s => { s with version := v },
      .default "extra_repository" .flag extraRepository fun v s => { s with extraRepository := v }]

def toolchainPpa : String := "ppa:ubuntu-toolchain-r/test"

def compilers (g : Gnu) : List String :=
  (if g.cxx then ["g++"] else []) ++ (if g.cc then ["gcc"] else []) ++
    if g.fortran then ["gfortran"] else []

def debPackages (g : Gnu) : List String :=
  match g.version with
  | some version => g.compilers.map (· ++ "-" ++ version)
  | none => g.compilers

-- The collection that a series for the RPM family comes in; it was renamed with release eight.
def toolset (t : Target) (version : String) : String :=
  (if 8 ≤ t.version.major then "gcc-toolset-" else "devtoolset-") ++ version

def rpmPackages (g : Gnu) (t : Target) : List String :=
  let names := (if g.cc then ["gcc"] else []) ++ (if g.cxx then ["gcc-c++"] else []) ++
    if g.fortran then ["gcc-gfortran"] else []
  match g.version with
  | some version => names.map (toolset t version ++ "-" ++ ·)
  | none => names

def toolchain (g : Gnu) : Toolchain where
  cc := if g.cc then some "gcc" else none
  cxx := if g.cxx then some "g++" else none
  f77 := if g.fortran then some "gfortran" else none
  f90 := if g.fortran then some "gfortran" else none
  fc := if g.fortran then some "gfortran" else none

-- The commands that get an alternative of their own. The coverage tool goes with the C compiler.
def alternatives (g : Gnu) : List String :=
  (g.compilers ++ if g.cc then ["gcov"] else []).mergeSort (· ≤ ·)

def alternativeCommand (version tool : String) : String :=
  "update-alternatives --install /usr/bin/" ++ tool ++ " " ++ tool ++ " $(which " ++ tool ++ "-" ++
    version ++ ") 30"

def toolsetEnvironment (t : Target) (version : String) : Environment :=
  let root := "/opt/rh/" ++ toolset t version ++ "/root/usr"
  { bindings := .ofList
      [("PATH", root ++ "/bin:$PATH"), ("LD_LIBRARY_PATH", root ++ "/lib64:$LD_LIBRARY_PATH")] }

def debRequest (g : Gnu) : PackageRequest :=
  { common := g.debPackages, aptPpas := if g.extraRepository then [toolchainPpa] else [] }

-- CentOS has the older collections in a repository that has to be enabled.
def rpmRequest (g : Gnu) (t : Target) : PackageRequest :=
  { common := g.rpmPackages t
    scl := g.version.isSome && !Yum.isYum4 t {} && t.distribution = .centos }

def request (g : Gnu) (t : Target) : PackageRequest :=
  match t.packageFamily with
  | .deb => g.debRequest
  | .rpm => g.rpmRequest t

def selectVersion (g : Gnu) (t : Target) (version : String) : Instruction :=
  match t.packageFamily with
  | .deb => .shell { commands := g.alternatives.map (alternativeCommand version) }
  | .rpm => .environment (toolsetEnvironment t version)

def install (g : Gnu) (t : Target) : Outcome BlockError (List Instruction) := do
  if !(g.cc || g.cxx || g.fortran) then throw (.noCompiler name)
  let installed ← (g.request t).install t
  return installed ++ (g.version.map (g.selectVersion t)).toList

-- The Fortran library, named for its binary interface on Debian systems.
def fortranLibrary (t : Target) : String :=
  match t.packageFamily with
  | .rpm => "libgfortran"
  | .deb =>
    if t.version.major ≤ 16 then "libgfortran3"
    else if t.version.major ≤ 18 then "libgfortran4"
    else "libgfortran5"

def openmpLibrary : PackageFamily → String
  | .deb => "libgomp1"
  | .rpm => "libgomp"

def runtimeRequest (g : Gnu) (t : Target) : PackageRequest :=
  { common := openmpLibrary t.packageFamily :: if g.fortran then [fortranLibrary t] else [] }

def runtime (g : Gnu) (t : Target) : Logged (List Instruction) := (g.runtimeRequest t).install t

end Gnu

end ContainerRecipe
