import ContainerRecipe.Script.Argument
import ContainerRecipe.Script.Request

namespace ContainerRecipe.Script

structure Effect where
  layers : List Layer
  toolchain : Option Toolchain := none

namespace Effect

def ofInstruction (p : Instruction) : Effect := { layers := [.instruction p] }

end Effect

namespace Session

def stageAt (s : Session) (index : Nat) : Decoded Stage :=
  match s.recipe.stage? index with
  | some stage => .ok stage
  | none => .error (.refusal (.noSuchStage index))

def stageField (stage : Stage) : StageField → Value
  | .name => .ofText? stage.name
  | .distribution => .text stage.target.distribution.text
  | .version => .text stage.target.versionLabel
  | .architecture => .text stage.target.architecture.text
  | .packageFamily => .text stage.target.packageFamily.text
  | .format => .text stage.target.format.text
  | .platform => .text stage.target.platform.text

def stageRequest (s : Session) (v : Value) : Decoded StageRequest :=
  match v with
  | .bytes _ => do return { image := ← v.asText }
  | v => s.record StageRequest.layout v

def checkName (s : Session) (name : Option String) : Decoded Unit :=
  match name with
  | some name => if s.recipe.hasStage name then .error (.refusal (.nameTaken name)) else .ok ()
  | none => .ok ()

def declared (s : Session) (template : Target) (arguments : List Value) : Outcome Fault Stage := do
  let r ← Outcome.ofExcept (s.stageRequest (argument arguments 0))
  Outcome.ofExcept (s.checkName r.name)
  let stage ← Stage.ofBase template r.name r.base
  return stage.withPackageFamily r.packageFamily

def shellEffect (s : Session) (arguments : List Value) : Decoded Effect := do
  let options ← s.options (Shell.layout.without "commands") (argument arguments 1)
  return .ofInstruction (.shell { options with commands := ← s.commands (argument arguments 0) })

def runscriptEffect (s : Session) (arguments : List Value) : Decoded Effect := do
  let options ← s.options (Runscript.layout.without "commands") (argument arguments 1)
  return .ofInstruction (.runscript { options with commands := ← s.commands (argument arguments 0) })

def environmentEffect (s : Session) (arguments : List Value) : Decoded Effect := do
  let t ← s.asTable (argument arguments 0)
  let options ← s.options (Environment.layout.without "variables") (argument arguments 1)
  return .ofInstruction (.environment { options with bindings := ← t.asBindings })

def labelEffect (s : Session) (arguments : List Value) : Decoded Effect := do
  let t ← s.asTable (argument arguments 0)
  let options ← s.options (Labels.layout.without "labels") (argument arguments 1)
  return .ofInstruction (.labels { options with bindings := ← t.asBindings })

def argEffect (s : Session) (arguments : List Value) : Decoded Effect := do
  let t ← s.asTable (argument arguments 0)
  return .ofInstruction (.arguments ⟨← t.asBindings⟩)

def commentEffect (s : Session) (arguments : List Value) : Decoded Effect := do
  let text ← (argument arguments 0).asText
  let options ← s.options (Comment.layout.without "text") (argument arguments 1)
  return .ofInstruction (.comment { options with text })

def workdirEffect (s : Session) (arguments : List Value) : Decoded Effect := do
  let directory ← (argument arguments 0).asText
  let options ← s.options (Workdir.layout.without "directory") (argument arguments 1)
  return .ofInstruction (.workdir { options with directory })

def userEffect (arguments : List Value) : Decoded Effect := do
  return .ofInstruction (.user ⟨← (argument arguments 0).asText⟩)

def rawEffect (s : Session) (arguments : List Value) : Decoded Effect := do
  return .ofInstruction (.verbatim (← s.record Verbatim.layout (argument arguments 0)))

-- The entries that a request asks for. Sources with a destination win over single files.
def copyEntries (r : CopyRequest) : Decoded (List CopyEntry) :=
  match r.sources, r.destination with
  | some sources, some destination => .ok [⟨sources, destination⟩]
  | some _, none => .error (.refusal .copyWithoutDestination)
  | none, _ =>
    if r.files.isEmpty then .error (.refusal .copyWithoutSource) else .ok r.fileEntries

def copyEffect (s : Session) (arguments : List Value) : Decoded Effect := do
  let r ← s.record CopyRequest.layout (argument arguments 0)
  return .ofInstruction (.copy (r.copyOf (← copyEntries r)))

def readFragment (setting : Setting) (s : Session) (path : Option String) : Decoded (Option String) :=
  match path with
  | some path =>
    match (s.files setting).readText (s.pathFrom path) with
    | .ok text => .ok (some text)
    | .error e => .error (.refusal (.unreadableFragment e))
  | none => .ok none

def blobEffect (setting : Setting) (s : Session) (arguments : List Value) : Decoded Effect := do
  let paths ← s.record Fragment.layout.strict (argument arguments 0)
  let docker ← readFragment setting s paths.docker
  let singularity ← readFragment setting s paths.singularity
  return .ofInstruction (.fragment { docker, singularity })

def packageRequest (s : Session) (v : Value) : Decoded PackageRequest :=
  match v with
  | .table place =>
    if (s.table place).length = 0 then s.record PackageRequest.layout v
    else do return { common := ← s.commands v }
  | v => s.record PackageRequest.layout v

def blockEffect (stage : Stage) (b : Block) (toolchain : Option Toolchain) :
    Outcome Fault Effect := do
  return { layers := [← (stage.expand b).mapError .block], toolchain }

def packagesEffect (s : Session) (stage : Stage) (arguments : List Value) :
    Outcome Fault Effect := do
  let r ← Outcome.ofExcept (s.packageRequest (argument arguments 0))
  blockEffect stage (.packages r) none

def gnuEffect (s : Session) (stage : Stage) (arguments : List Value) : Outcome Fault Effect := do
  let g ← Outcome.ofExcept (s.options Gnu.layout (argument arguments 0))
  blockEffect stage (.gnu g) (some g.toolchain)

def nvhpcEffect (s : Session) (stage : Stage) (arguments : List Value) : Outcome Fault Effect := do
  let n ← Outcome.ofExcept (s.options Nvhpc.layout (argument arguments 0))
  blockEffect stage (.nvhpc n) (some (n.toolchain stage.target))

def autotoolsEffect (s : Session) (stage : Stage) (arguments : List Value) :
    Outcome Fault Effect := do
  let a ← Outcome.ofExcept (s.record Autotools.layout (argument arguments 0))
  blockEffect stage (.autotools a) none

-- How a stage in `format` calls another one in copies: by its name, else by its position. Singularity knows
-- names only.
def reference (format : Format) (index : Nat) (source : Stage) : Decoded String :=
  match source.name with
  | some name => .ok name
  | none =>
    if format = .singularity then .error (.refusal (.unnamedSource index))
    else .ok (Nat.repr index)

def otherStage (index : Nat) : Value → Decoded Nat
  | .stage other => if other = index then .error (.refusal .ownRuntime) else .ok other
  | _ => .error .conversion

def sourceStage (s : Session) (index other : Nat) : Decoded Stage :=
  match s.recipe.stage? other, s.recipe.stage? index with
  | some source, some _ => .ok source
  | _, _ => .error (.refusal .foreignStages)

def runtimeEffect (s : Session) (index : Nat) (stage : Stage) (arguments : List Value) :
    Outcome Fault Effect := do
  let other ← Outcome.ofExcept (otherStage index (argument arguments 0))
  let exclude ← Outcome.ofExcept (s.options excludeLayout (argument arguments 1))
  let name ← Outcome.ofExcept (reference stage.target.format other (← .ofExcept (s.stageAt other)))
  let source ← Outcome.ofExcept (s.sourceStage index other)
  let instructions ← (source.runtime stage.target name exclude).mapError .block
  return { layers := instructions.map .instruction }

def effect (setting : Setting) (s : Session) (index : Nat) (stage : Stage) (m : Method)
    (arguments : List Value) : Outcome Fault Effect :=
  match m with
  | .shell => .ofExcept (s.shellEffect arguments)
  | .copy => .ofExcept (s.copyEffect arguments)
  | .environment => .ofExcept (s.environmentEffect arguments)
  | .label => .ofExcept (s.labelEffect arguments)
  | .arg => .ofExcept (s.argEffect arguments)
  | .comment => .ofExcept (s.commentEffect arguments)
  | .raw => .ofExcept (s.rawEffect arguments)
  | .workdir => .ofExcept (s.workdirEffect arguments)
  | .user => .ofExcept (userEffect arguments)
  | .runscript => .ofExcept (s.runscriptEffect arguments)
  | .blob => .ofExcept (blobEffect setting s arguments)
  | .packages => s.packagesEffect stage arguments
  | .gnu => s.gnuEffect stage arguments
  | .nvhpc => s.nvhpcEffect stage arguments
  | .autotools => s.autotoolsEffect stage arguments
  | .runtime => s.runtimeEffect index stage arguments

end Session

namespace Action

def callStage (arguments : List Value) : Action Value := do
  let template := (← read).options.template
  declare (← ofOutcome ((← get).declared template arguments))

def newToolchain (t : Toolchain) : Action Value := do
  let settings ← newTable (.ofFields (t.settings.map fun (name, value) => (name, .text value)))
  newTable (.ofFields [("toolchain", settings)])

def callMethod (index : Nat) (m : Method) (arguments : List Value) : Action (List Value) := do
  let s ← get
  let stage ← ofOutcome (.ofExcept (s.stageAt index))
  let effect ← ofOutcome (s.effect (← read) index stage m arguments)
  extend index effect.layers
  match effect.toolchain with
  | some t => return [← newToolchain t]
  | none => return []

end Action

end ContainerRecipe.Script
