import ContainerRecipe.Block.Archive
import ContainerRecipe.Instruction
import ContainerRecipe.Toolchain

namespace ContainerRecipe

structure Autotools where
  label : Option String := none
  url : Option String := none
  root : String := "/usr/local"
  directory : Option String := none
  configureOptions : List String := []
  preconfigure : List String := []
  postinstall : List String := []
  environment : Bool := false
  ldconfig : Bool := false
  make : Bool := true
  install : Bool := true
  check : Bool := false
  toolchain : Toolchain := ∅

namespace Autotools

def layout : Layout Autotools where
  blank := {}
  fields :=
    [.default "name" Codec.text.nullable label fun v s => { s with label := v },
      .default "url" Codec.text.nullable url fun v s => { s with url := v },
      .default "prefix" .text root fun v s => { s with root := v },
      .default "directory" Codec.text.nullable directory fun v s => { s with directory := v },
      .default "configure_opts" Codec.text.list configureOptions fun v s =>
        { s with configureOptions := v },
      .default "preconfigure" Codec.text.list preconfigure fun v s => { s with preconfigure := v },
      .default "postinstall" Codec.text.list postinstall fun v s => { s with postinstall := v },
      .default "environment" .flag environment fun v s => { s with environment := v },
      .default "ldconfig" .flag ldconfig fun v s => { s with ldconfig := v },
      .default "make" .flag make fun v s => { s with make := v },
      .default "install" .flag install fun v s => { s with install := v },
      .default "check" .flag check fun v s => { s with check := v },
      .default "toolchain" Toolchain.layout.codec toolchain fun v s => { s with toolchain := v }]

def defaultName : String := "generic_autotools"

def name (a : Autotools) : String := (a.label.or a.directory).getD defaultName

def requireUrl (a : Autotools) : Except BlockError String :=
  match a.url with
  | some url => .ok url
  | none => .error (.missingParameter a.name "url")

def base (a : Autotools) : String := Text.dropTrailing '/' a.root

def ldconfigCommand (a : Autotools) : String :=
  let file := a.name.map fun c => if c = '/' then '_' else c
  "echo \"" ++ a.base ++ "/lib\" >> /etc/ld.so.conf.d/" ++ file ++ ".conf && ldconfig"

def environmentBindings (a : Autotools) : Bindings :=
  .ofList <| ("PATH", a.base ++ "/bin:$PATH") ::
    if a.ldconfig then [] else [("LD_LIBRARY_PATH", a.base ++ "/lib:$LD_LIBRARY_PATH")]

def environmentInstructions (a : Autotools) : List Instruction :=
  if a.environment then [.environment { bindings := a.environmentBindings }] else []

def configureCommand (a : Autotools) : String :=
  let assignments := if a.toolchain.isEmpty then [] else [a.toolchain.assignments]
  " ".intercalate (assignments ++ ["./configure --prefix=" ++ a.root] ++ a.configureOptions)

def commands (a : Autotools) (archive : Archive) : List String :=
  archive.fetch ++ ["cd " ++ archive.sources] ++ a.preconfigure ++ [a.configureCommand] ++
    (if a.make then ["make -j$(nproc)"] else []) ++
    (if a.check then ["make -j$(nproc) check"] else []) ++
    (if a.install then ["make -j$(nproc) install"] else []) ++
    a.postinstall ++ (if a.ldconfig then [a.ldconfigCommand] else []) ++ [archive.cleanUp]

def origin (url : String) : Instruction := .comment { text := url, reformat := false }

def build (a : Autotools) (t : Target) : Except BlockError (List Instruction) := do
  let url ← a.requireUrl
  let archive ← Archive.ofUrl t a.name url a.directory
  return [origin url, .shell { commands := a.commands archive }] ++ a.environmentInstructions

def runtime (a : Autotools) (source : String) : Except BlockError (List Instruction) := do
  let url ← a.requireUrl
  return [origin url, .copy { entries := [⟨[a.root], a.root⟩], source := some source }] ++
    (if a.ldconfig then [.shell { commands := [a.ldconfigCommand] }] else []) ++
    a.environmentInstructions

end Autotools

end ContainerRecipe
