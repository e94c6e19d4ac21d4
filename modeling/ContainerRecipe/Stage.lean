import ContainerRecipe.Block
import ContainerRecipe.Instruction.Run
import ContainerRecipe.Render

namespace ContainerRecipe

inductive StageError where
  | merge (cause : MergeError)
  | render (cause : RenderError)
  deriving DecidableEq, Repr

def StageError.message : StageError → String
  | .merge cause => cause.message
  | .render cause => cause.message

-- What was put on a stage in one step.
inductive Layer where
  | instruction (instruction : Instruction)
  | block (block : Block) (expansion : List Instruction)

namespace Layer

def instructions : Layer → List Instruction
  | .instruction p => [p]
  | .block _ expansion => expansion

def block? : Layer → Option Block
  | .instruction _ => none
  | .block b _ => some b

end Layer

structure Stage where
  name : Option String
  base : BaseImage
  target : Target
  layers : List Layer := []

namespace Stage

-- Starts a stage. The name, if there is one, becomes the stage's name in the base image as well.
def ofBase (template : Target) (name : Option String) (base : BaseImage) : Logged Stage := do
  let base := { base with stage := name.or base.stage }
  return { name, base, target := ← template.settle base }

def withPackageFamily (s : Stage) (family : Option PackageFamily) : Stage :=
  { s with target := s.target.withPackageFamily family }

def append (s : Stage) (layers : List Layer) : Stage := { s with layers := s.layers ++ layers }

def push (s : Stage) (p : Instruction) : Stage := s.append [.instruction p]

def expand (s : Stage) (b : Block) : Outcome BlockError Layer := do
  return .block b (← b.install s.target)

def addBlock (s : Stage) (b : Block) : Outcome BlockError Stage := do
  return s.append [← s.expand b]

def blocks (s : Stage) : List Block := s.layers.filterMap Layer.block?

def blockNames (s : Stage) : List String := s.blocks.map Block.name

def instructions (s : Stage) : List Instruction :=
  .baseImage s.base :: s.layers.flatMap Layer.instructions

-- What the blocks of this stage, which copies call `source`, leave to a stage with the target `t`. The blocks
-- named in `exclude` are left out.
def runtime (s : Stage) (t : Target) (source : String) (exclude : List String) :
    Outcome BlockError (List Instruction) := do
  let kept := s.blocks.filter fun b => !exclude.contains b.name
  return (← kept.mapM (Block.runtime t source)).flatten

def document (s : Stage) (merged : Bool) : Outcome StageError (List Instruction) :=
  if merged then (Instruction.mergeRuns s.instructions).mapError .merge else pure s.instructions

def render (s : Stage) (merged : Bool) : Outcome StageError String := do
  let texts ← (← s.document merged).mapM fun p => (p.render s.target).mapError .render
  return "\n".intercalate (texts.filter (· ≠ ""))

def dump (s : Stage) : Datum :=
  .record
    [("name", Codec.text.nullable.write s.name), ("format", .text s.target.format.text),
      ("platform", .text s.target.platform.text),
      ("package_type", Codec.packageFamily.write s.target.packageFamily),
      ("primitives", .list (s.instructions.map Instruction.write))]

end Stage

end ContainerRecipe
