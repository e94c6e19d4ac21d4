import ContainerRecipe.Stage

namespace ContainerRecipe

structure Recipe where
  stages : List Stage := []

namespace Recipe

instance : EmptyCollection Recipe := ⟨{}⟩
instance : Inhabited Recipe := ⟨∅⟩

def stage? (r : Recipe) (index : Nat) : Option Stage := r.stages[index]?

def push (r : Recipe) (s : Stage) : Recipe := ⟨r.stages ++ [s]⟩

def append (r : Recipe) (index : Nat) (layers : List Layer) : Recipe :=
  ⟨r.stages.modify index (·.append layers)⟩

def hasStage (r : Recipe) (name : String) : Bool := r.stages.any (·.name = some name)

-- A document of several stages needs a Singularity that can build it. The options are the same for all
-- stages, so the first one tells.
def checkStages (r : Recipe) : Outcome StageError Unit :=
  match r.stages with
  | first :: _ :: _ =>
    if first.target.format = .singularity then
      (first.target.requireSingularity "multi-stage recipes" Definition.multiStageVersion).mapError
        .render
    else pure ()
  | _ => pure ()

def render (r : Recipe) (merged : Bool) : Outcome StageError String := do
  r.checkStages
  let texts ← r.stages.mapM (·.render merged)
  return "\n\n".intercalate (texts.filter (· ≠ ""))

def dump (r : Recipe) : Datum := .list (r.stages.map Stage.dump)

def added (before after : Recipe) : List (Nat × Instruction) :=
  after.stages.zipIdx.flatMap fun (s, index) =>
    let known := ((before.stage? index).map (·.instructions.length)).getD 0
    (s.instructions.drop known).map (index, ·)

end Recipe

end ContainerRecipe
