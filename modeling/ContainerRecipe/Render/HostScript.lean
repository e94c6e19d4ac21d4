import ContainerRecipe.Render.Error
import ContainerRecipe.Text.Paragraph

namespace ContainerRecipe.HostScript

def shellLines (s : Shell) : List String :=
  if s.effective.isEmpty then [] else (if s.fromRoot then ["cd /"] else []) ++ s.effective

def exports (b : Bindings) : List String := b.assignments.map ("export " ++ ·)

-- A variable that is already set keeps its value.
def argumentLines (a : Arguments) : List String :=
  a.bindings.entries.map fun (name, value) => name ++ "=$\x7b" ++ name ++ ":-\"" ++ value ++ "\"\x7d"

def skip (p : Instruction) : Outcome RenderError String := do
  Outcome.warn (.noScriptForm p.kind)
  return ""

def write : Instruction → Outcome RenderError String
  | .baseImage _ => pure "#!/bin/bash -ex"
  | .shell s => pure ("\n".intercalate (shellLines s))
  | .copy c => skip (.copy c)
  | .environment e => pure ("\n".intercalate (exports e.bindings))
  | .comment c => pure (Text.comment c.text c.reformat)
  | .workdir w => skip (.workdir w)
  | .arguments a => pure ("\n".intercalate (argumentLines a))
  | .runscript r => skip (.runscript r)
  | .labels _ | .verbatim _ | .user _ | .fragment _ => pure ""

end ContainerRecipe.HostScript
