import ContainerRecipe.Instruction.Merge

namespace ContainerRecipe.Instruction

def joins : (head next : Instruction) → Bool
  | .shell a, .shell b => a.app = b.app && a.fromRoot = b.fromRoot
  | .copy a, .copy b =>
    a.app = b.app && a.source = b.source && a.owner = b.owner && a.exclude = b.exclude
  | .environment a, .environment b => a.app = b.app && a.exported = b.exported
  | .labels a, .labels b => a.app = b.app
  | .comment a, .comment b => a.app = b.app && a.reformat = b.reformat
  | .arguments _, .arguments _ => true
  | .runscript a, .runscript b => a.app = b.app && a.exec = b.exec
  | _, _ => false

def runsFrom (head : Instruction) (members : List Instruction) :
    List Instruction → List (List Instruction)
  | [] => [head :: members]
  | p :: rest =>
    if joins head p then runsFrom head (members ++ [p]) rest
    else (head :: members) :: runsFrom p [] rest

def runs : List Instruction → List (List Instruction)
  | [] => []
  | p :: rest => runsFrom p [] rest

-- Merges a run. A comment keeps the run's choice of formatting.
def mergeRun : List Instruction → Outcome MergeError Instruction
  | [p] => pure p
  | run => do
    let merged ← merge run (run.head?.bind app)
    match merged, run.head? with
    | .comment c, some (.comment first) => return .comment { c with reformat := first.reformat }
    | merged, _ => return merged

def mergeRuns (items : List Instruction) : Outcome MergeError (List Instruction) :=
  (runs items).mapM mergeRun

end ContainerRecipe.Instruction
