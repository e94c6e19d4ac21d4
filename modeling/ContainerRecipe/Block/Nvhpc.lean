import ContainerRecipe.Block.Archive
import ContainerRecipe.Packages
import ContainerRecipe.Toolchain

namespace ContainerRecipe

structure Nvhpc where
  eula : Bool := false
  version : String := "24.1"
  cudaMulti : Bool := true
  cuda : Option String := none
  root : String := "/opt/nvidia/hpc_sdk"
  environment : Bool := true
  extendedEnvironment : Bool := false
  mpi : Bool := false
  url : Option String := none
  deriving DecidableEq, Repr

namespace Nvhpc

def name : String := "nvhpc"

def layout : Layout Nvhpc where
  blank := {}
  fields :=
    [.default "eula" .flag eula fun v s => { s with eula := v },
      .default "version" .text version fun v s => { s with version := v },
      .default "cuda_multi" .flag cudaMulti fun v s => { s with cudaMulti := v },
      .default "cuda" Codec.text.nullable cuda fun v s => { s with cuda := v },
      .default "prefix" .text root fun v s => { s with root := v },
      .default "environment" .flag environment fun v s => { s with environment := v },
      .default "extended_environment" .flag extendedEnvironment fun v s =>
        { s with extendedEnvironment := v },
      .default "mpi" .flag mpi fun v s => { s with mpi := v },
      .default "url" Codec.text.nullable url fun v s => { s with url := v }]

def downloads : String := "https://developer.download.nvidia.com/hpc-sdk"

def releaseParts? (version : String) : Option (List Char × List Char) := do
  let (year, month) ← Text.cutFirst? '.' version.toList
  if year.length = 2 && !month.isEmpty && (year ++ month).all Char.isDigit then
    return (year, month)
  else none

def flavour (n : Nvhpc) : Except BlockError String :=
  if n.cudaMulti then .ok "cuda_multi"
  else match n.cuda with
    | some cuda => .ok ("cuda_" ++ cuda)
    | none => .error (.missingParameter name "cuda")

def archiveUrl (n : Nvhpc) (t : Target) : Except BlockError String :=
  match n.url with
  | some url => .ok url
  | none =>
    match releaseParts? n.version with
    | none => .error (.malformedRelease name n.version)
    | some (year, month) => do
      let flavour ← n.flavour
      return downloads ++ "/" ++ n.version ++ "/nvhpc_20" ++ String.ofList year ++ "_" ++
        String.ofList (year ++ month) ++ "_Linux_" ++ t.architecture.text ++ "_" ++ flavour ++ ".tar.gz"

def releaseRoot (n : Nvhpc) (t : Target) : String :=
  Text.dropTrailing '/' n.root ++ "/Linux_" ++ t.architecture.text ++ "/" ++ n.version

def buildPackages : PackageFamily → List String
  | .deb =>
    ["bc", "debianutils", "g++", "gcc", "gfortran", "libatomic1", "libnuma1", "openssh-client", "wget"]
  | .rpm =>
    ["bc", "gcc", "gcc-c++", "gcc-gfortran", "libatomic", "numactl-libs", "openssh-clients", "wget",
      "which"]

def runtimePackages : PackageFamily → List String
  | .deb => ["libatomic1", "libnuma1", "openssh-client"]
  | .rpm => ["libatomic", "numactl-libs", "openssh-clients"]

def searchPath (root : String) (directories : List String) (held : String) : String :=
  ":".intercalate (directories.map (root ++ ·) ++ ["$" ++ held])

def commandDirectories (n : Nvhpc) : List String :=
  ["/compilers/bin"] ++ (if n.mpi then ["/comm_libs/mpi/bin"] else []) ++
    if n.extendedEnvironment then ["/cuda/bin"] else []

def libraryDirectories (n : Nvhpc) : List String :=
  ["/compilers/lib"] ++ (if n.mpi then ["/comm_libs/mpi/lib"] else []) ++
    if n.extendedEnvironment then ["/cuda/lib64", "/math_libs/lib64"] else []

def environmentBindings (n : Nvhpc) (t : Target) : Bindings :=
  let root := n.releaseRoot t
  .ofList <|
    [("PATH", searchPath root n.commandDirectories "PATH"),
      ("LD_LIBRARY_PATH", searchPath root n.libraryDirectories "LD_LIBRARY_PATH"),
      ("MANPATH", searchPath root ["/compilers/man"] "MANPATH")] ++
    if n.extendedEnvironment then
      [("CUDA_HOME", root ++ "/cuda"), ("CPATH", searchPath root ["/math_libs/include"] "CPATH")]
    else []

def toolchain (n : Nvhpc) (t : Target) : Toolchain where
  cc := some "nvc"
  cxx := some "nvc++"
  f77 := some "nvfortran"
  f90 := some "nvfortran"
  fc := some "nvfortran"
  cudaHome := some (n.releaseRoot t ++ "/cuda")

def installCommands (n : Nvhpc) (a : Archive) : List String :=
  a.fetch ++
    ["cd " ++ a.sources ++ " && NVHPC_SILENT=true NVHPC_INSTALL_DIR=" ++ n.root ++
        " NVHPC_INSTALL_TYPE=single ./install",
      a.cleanUp]

def install (n : Nvhpc) (t : Target) : Outcome BlockError (List Instruction) := do
  t.licensePolicy.check name n.eula
  let url ← Outcome.ofExcept (n.archiveUrl t)
  let archive ← Outcome.ofExcept (Archive.ofUrl t name url none)
  let packages ← PackageRequest.install { common := buildPackages t.packageFamily } t
  return packages ++ [.shell { commands := n.installCommands archive }] ++
    if n.environment then [.environment { bindings := n.environmentBindings t }] else []

def runtime (n : Nvhpc) (t : Target) (source : String) : Logged (List Instruction) := do
  let root := n.releaseRoot t
  let packages ← PackageRequest.install { common := runtimePackages t.packageFamily } t
  return packages ++
    [.copy
      { entries := [⟨[root ++ "/REDIST/compilers/lib/*"], root ++ "/compilers/lib/"⟩]
        source := some source },
      .environment
        { bindings := .ofList
            [("LD_LIBRARY_PATH", searchPath root ["/compilers/lib"] "LD_LIBRARY_PATH")] }]

end Nvhpc

end ContainerRecipe
