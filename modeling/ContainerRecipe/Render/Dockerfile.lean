import ContainerRecipe.Datum.Json
import ContainerRecipe.Render.Error
import ContainerRecipe.Shell.Words
import ContainerRecipe.Text.Paragraph

namespace ContainerRecipe.Dockerfile

def continued (parts : List String) : String := " \\\n    ".intercalate parts

def keyValues (keyword : String) (b : Bindings) : String :=
  if b.isEmpty then "" else keyword ++ " " ++ continued b.assignments

def shell (s : Shell) : String :=
  if s.effective.isEmpty then "" else "RUN " ++ " && \\\n    ".intercalate s.effective

def copyWords (c : Copy) : List String :=
  ["COPY"] ++ c.owner.toList.map ("--chown=" ++ ·) ++ c.source.toList.map ("--from=" ++ ·) ++
    c.exclude.map ("--exclude=" ++ ·)

-- Several sources stand on lines of their own, and the destination after them.
def copyEntry (c : Copy) (e : CopyEntry) : String :=
  match e.sources with
  | [source] => " ".intercalate (copyWords c ++ [source, e.destination])
  | sources =>
    continued ((" ".intercalate (copyWords c) ++ " " ++ sources.headD "") ::
      sources.drop 1 ++ [e.destination])

def copy (c : Copy) : String := "\n".intercalate (c.effective.map (copyEntry c))

def arguments (a : Arguments) : String :=
  "\n".intercalate <| a.bindings.entries.map fun (name, value) =>
    if value = "" then "ARG " ++ name else "ARG " ++ name ++ "=" ++ value

def entrypoint (words : List String) : String :=
  "ENTRYPOINT [" ++ ", ".intercalate (words.map Json.quote) ++ "]"

def runscript (r : Runscript) : Outcome RenderError String :=
  match r.commands with
  | [] => pure ""
  | command :: rest => do
    if !rest.isEmpty then Outcome.warn (.extraEntrypoints rest.length)
    match Shell.splitWords? command with
    | some words => return entrypoint words
    | none => throw (.unbalancedQuotes command)

def ignoreApp (p : Instruction) : Outcome RenderError Unit :=
  match p.app with
  | some app => .warn (.appIgnored p.kind app)
  | none => pure ()

def write : Instruction → Outcome RenderError String
  | .baseImage b => pure <| "FROM " ++ b.image ++ (b.stage.map (" AS " ++ ·)).getD ""
  | .shell s => do ignoreApp (.shell s); return shell s
  | .copy c => do ignoreApp (.copy c); return copy c
  | .environment e => do ignoreApp (.environment e); return keyValues "ENV" e.bindings
  | .labels l => do ignoreApp (.labels l); return keyValues "LABEL" l.bindings
  | .comment c => pure (Text.comment c.text c.reformat)
  | .verbatim v => pure (v.docker.getD "")
  | .workdir w => do ignoreApp (.workdir w); return "WORKDIR " ++ w.directory
  | .user u => pure ("USER " ++ u.name)
  | .arguments a => pure (arguments a)
  | .runscript r => do ignoreApp (.runscript r); runscript r
  | .fragment f => pure (f.docker.getD "")

end ContainerRecipe.Dockerfile
