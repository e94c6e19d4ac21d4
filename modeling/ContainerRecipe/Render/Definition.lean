import ContainerRecipe.Render.Error
import ContainerRecipe.Text.Paragraph
import ContainerRecipe.Text.Parts

namespace ContainerRecipe.Definition

def multiStageVersion : Version := ⟨3, 2⟩

-- The first release that refuses temporary destinations under `%files`.
def temporaryFilesVersion : Version := ⟨3, 6⟩

def margin : String := "    "

structure Section where
  header : String
  body : List String
  deriving DecidableEq, Repr

namespace Section

def text (s : Section) : String :=
  s.header ++ String.join (s.body.map fun line => "\n" ++ Text.indent line margin)

end Section

def textOf (sections : List Section) : String := "\n".intercalate (sections.map Section.text)

def header (plain inApp : String) (app : Option String) : String :=
  match app with
  | some app => inApp ++ " " ++ app
  | none => plain

def shellSections (s : Shell) : List Section :=
  if s.effective.isEmpty then []
  else
    [⟨header "%post" "%appinstall" s.app, (if s.fromRoot then ["cd /"] else []) ++ s.effective⟩]

-- The root of the image, as the host sees it during `%setup`.
def imageRoot : String := "$\x7bSINGULARITY_ROOTFS\x7d"

def placement (e : CopyEntry) : String :=
  if e.sources.length > 1 || Text.endsWith "/" e.destination then
    Text.dropTrailing '/' e.destination
  else
    match Text.cutLast? '/' e.destination.toList with
    | some (parent, _) => if parent.isEmpty then "/" else String.ofList parent
    | none => "/"

def setupLines (exclude : List String) (e : CopyEntry) : List String :=
  let sources := " ".intercalate e.sources
  let transfer :=
    if exclude.isEmpty then "cp -a " ++ sources
    else "rsync -a " ++ " ".intercalate (exclude.map ("--exclude=" ++ ·)) ++ " " ++ sources
  ["mkdir -p " ++ imageRoot ++ placement e, transfer ++ " " ++ imageRoot ++ e.destination]

def filesLines (e : CopyEntry) : List String := e.sources.map (· ++ " " ++ e.destination)

def refusedByFiles (t : Target) (e : CopyEntry) : Bool :=
  temporaryFilesVersion ≤ t.singularityVersion && isTemporary e.destination

def stagedOnHost (t : Target) (c : Copy) (e : CopyEntry) : Bool :=
  c.source.isNone && (!c.exclude.isEmpty || refusedByFiles t e)

def checkSource (t : Target) (c : Copy) : Outcome RenderError Unit :=
  match c.source, c.app with
  | none, _ => pure ()
  | some stage, some app => throw (.appFromStage app stage)
  | some stage, none => do
    t.requireSingularity "%files from" multiStageVersion
    if !c.exclude.isEmpty then Outcome.warn (.excludeIgnored stage)
    match c.effective.find? (refusedByFiles t) with
    | some e => throw (.temporaryDestination e.destination stage)
    | none => pure ()

def filesHeader (c : Copy) : String :=
  match c.source with
  | some stage => "%files from " ++ stage
  | none => header "%files" "%appfiles" c.app

def copySections (t : Target) (c : Copy) : List Section :=
  let setup := c.effective.filter (stagedOnHost t c)
  let files := c.effective.filter fun e => !stagedOnHost t c e
  (if setup.isEmpty then [] else [⟨"%setup", setup.flatMap (setupLines c.exclude)⟩]) ++
    (if files.isEmpty then [] else [⟨filesHeader c, files.flatMap filesLines⟩])

def environmentSections (e : Environment) : List Section :=
  let exports := e.bindings.assignments.map ("export " ++ ·)
  if e.bindings.isEmpty then []
  else
    ⟨header "%environment" "%appenv" e.app, exports⟩ ::
      if e.exported && e.app.isNone then [⟨"%post", exports⟩] else []

def labelSections (l : Labels) : List Section :=
  if l.bindings.isEmpty then []
  else
    [⟨header "%labels" "%applabels" l.app,
      l.bindings.entries.map fun (name, value) => name ++ " " ++ value⟩]

def workdirSections (w : Workdir) : List Section :=
  [⟨header "%post" "%appinstall" w.app, ["mkdir -p " ++ w.directory, "cd " ++ w.directory]⟩]

-- A single command takes the place of the shell that runs the script.
def runscriptSections (r : Runscript) : List Section :=
  match r.commands with
  | [] => []
  | [command] =>
    let line := if r.exec && !Text.startsWith "exec " command then "exec " ++ command else command
    [⟨header "%runscript" "%apprun" r.app, [line]⟩]
  | commands => [⟨header "%runscript" "%apprun" r.app, commands⟩]

def baseImage (t : Target) (b : BaseImage) : Outcome RenderError String := do
  if b.stage.isSome then t.requireSingularity "stage names" multiStageVersion
  let post : List Section :=
    if b.dockerEnvironment then [⟨"%post", [". /.singularity.d/env/10-docker*.sh"]⟩] else []
  return "\n".intercalate (["BootStrap: " ++ b.bootstrap, "From: " ++ b.image] ++
    b.stage.toList.map ("Stage: " ++ ·) ++ post.map Section.text)

-- Inside an application a comment is its help text.
def comment (c : Comment) : String :=
  match c.app with
  | some app =>
    if Text.isBlankText c.text then "" else "%apphelp " ++ app ++ "\n" ++ c.text
  | none => Text.comment c.text c.reformat

def write (t : Target) : Instruction → Outcome RenderError String
  | .baseImage b => baseImage t b
  | .shell s => pure (textOf (shellSections s))
  | .copy c => do checkSource t c; return textOf (copySections t c)
  | .environment e => pure (textOf (environmentSections e))
  | .labels l => pure (textOf (labelSections l))
  | .comment c => pure (comment c)
  | .verbatim v => pure (v.singularity.getD "")
  | .workdir w => pure (textOf (workdirSections w))
  | .user _ | .arguments _ => pure ""
  | .runscript r => pure (textOf (runscriptSections r))
  | .fragment f => pure (f.singularity.getD "")

end ContainerRecipe.Definition
