import ContainerRecipe.Instruction
import ContainerRecipe.Warning

namespace ContainerRecipe

inductive MergeError where
  | empty
  | notMergeable (kind : String)
  deriving DecidableEq, Repr

def MergeError.message : MergeError → String
  | .empty => "cannot merge an empty list of primitives"
  | .notMergeable kind => kind ++ " primitives cannot be merged"

def sift (pick : α → Except Warning β) (items : List α) : Logged (List β) where
  value := items.filterMap fun item => (pick item).toOption
  warnings := items.filterMap fun item =>
    match pick item with
    | .ok _ => none
    | .error w => some w

def Bindings.unionAll (all : List Bindings) : Bindings := all.foldl Bindings.union ∅

namespace Instruction

def pickShell : Instruction → Except Warning Shell
  | .shell s => .ok s
  | p => .error (.kindSkipped "shell" p.kind)

def pickCopy (first : Copy) : Instruction → Except Warning Copy
  | .copy c =>
    if c.source ≠ first.source then .error (.stageSkipped first.source c.source)
    else if c.owner ≠ first.owner then .error (.ownerSkipped first.owner c.owner)
    else .ok c
  | p => .error (.kindSkipped "copy" p.kind)

def pickEnvironment : Instruction → Except Warning Environment
  | .environment e => .ok e
  | p => .error (.kindSkipped "environment" p.kind)

def pickLabels : Instruction → Except Warning Labels
  | .labels l => .ok l
  | p => .error (.kindSkipped "label" p.kind)

def pickComment : Instruction → Except Warning Comment
  | .comment c => .ok c
  | p => .error (.kindSkipped "comment" p.kind)

def pickArguments : Instruction → Except Warning Arguments
  | .arguments a => .ok a
  | p => .error (.kindSkipped "arg" p.kind)

def pickRunscript : Instruction → Except Warning Runscript
  | .runscript r => .ok r
  | p => .error (.kindSkipped "runscript" p.kind)

def merge (items : List Instruction) (app : Option String) : Outcome MergeError Instruction := do
  match items.head? with
  | none => throw .empty
  | some (.shell first) =>
    let all ← sift pickShell items
    return .shell { first with commands := all.flatMap (·.commands), app }
  | some (.copy first) =>
    let all ← sift (pickCopy first) items
    return .copy { first with
      entries := (all.flatMap (·.entries)).eraseDups
      exclude := (all.flatMap (·.exclude)).eraseDups
      app }
  | some (.environment _) =>
    let all ← sift pickEnvironment items
    return .environment
      { bindings := .unionAll (all.map (·.bindings)), exported := all.any (·.exported), app }
  | some (.labels _) =>
    let all ← sift pickLabels items
    return .labels { bindings := .unionAll (all.map (·.bindings)), app }
  | some (.comment _) =>
    let all ← sift pickComment items
    return .comment
      { text := "\n".intercalate (all.map (·.text)).eraseDups, reformat := false, app }
  | some (.arguments _) =>
    let all ← sift pickArguments items
    return .arguments ⟨.unionAll (all.map (·.bindings))⟩
  | some (.runscript first) =>
    let all ← sift pickRunscript items
    return .runscript { first with commands := (all.flatMap (·.commands)).eraseDups, app }
  | some other => throw (.notMergeable other.kind)

end Instruction

end ContainerRecipe
