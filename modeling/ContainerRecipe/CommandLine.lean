import ContainerRecipe.CommandLine.Request
import ContainerRecipe.Datum.Json
import ContainerRecipe.Evaluation

namespace ContainerRecipe.CommandLine

def programName : String := "stagefile"

def programVersion : String := "0.3.0"

def title : String := programName ++ " " ++ programVersion

def padRight (width : Nat) (s : String) : String :=
  s ++ String.ofList (List.replicate (width - s.length) ' ')

def distributionLine (d : Distribution) : String :=
  "  " ++ padRight 12 d.text ++ " " ++ padRight 6 d.packageFamily.text ++ " " ++
    d.versionLabel d.defaultVersion ++ " (default)"

def statistic (label value : String) : String := "  " ++ label ++ ": " ++ value

def infoText : String :=
  "\n".intercalate <|
    [title, statistic "Formats" (", ".intercalate (Format.all.map Format.text)),
      statistic "Architectures" (", ".intercalate (Architecture.all.map Architecture.text)),
      statistic "Singularity" (Target.defaultSingularityVersion.text ++ " (default target)"),
      "Distributions:"] ++ Distribution.all.map distributionLine

def distributionDatum (d : Distribution) : Datum :=
  .record
    [("default_version", .text (d.versionLabel d.defaultVersion)), ("name", .text d.text),
      ("package_type", .text d.packageFamily.text)]

def infoDatum : Datum :=
  .record
    [("architectures", Codec.texts.write (Architecture.all.map Architecture.text)),
      ("distros", .list (Distribution.all.map distributionDatum)),
      ("formats", Codec.texts.write (Format.all.map Format.text)),
      ("singularity_version", .text Target.defaultSingularityVersion.text),
      ("version", .text programVersion)]

inductive CommandError where
  | evaluate (path : String) (cause : EvaluationError)
  | render (cause : StageError)
  | write (path : String) (cause : FileError)
  deriving DecidableEq, Repr

def CommandError.message : CommandError → String
  | .evaluate path cause => "Failed to evaluate recipe: " ++ path ++ ": " ++ cause.message
  | .render cause => "Failed to render recipe: " ++ cause.message
  | .write path cause => "Failed to write " ++ path ++ ": " ++ cause.message

structure Report where
  output : String := ""
  -- What the recipe has printed by itself.
  printed : String := ""
  warnings : List Warning := []
  tree : FileTree

-- A step of a command. What was done before an error stays.
abbrev Command := ExceptT CommandError (StateM Report)

namespace Command

def ofOutcome (x : Outcome CommandError α) : Command α := do
  modify fun report => { report with warnings := report.warnings ++ x.warnings }
  match x.result with
  | .ok a => return a
  | .error e => throw e

def print (s : String) : Command Unit := modify fun report => { report with output := report.output ++ s }

def writeFile (path s : String) : Command Unit := do
  match (← get).tree.write path s.toUTF8 with
  | .ok tree => modify fun report => { report with tree }
  | .error cause => throw (.write path cause)

end Command

def document (r : RenderRequest) (recipe : Recipe) : Outcome CommandError String :=
  match r.emission with
  | .json => pure (Json.pretty recipe.dump)
  | .text => (recipe.render r.merge).mapError .render

-- The recipe is run, with all that it has the library do.
def evaluate (r : RenderRequest) (library : Script.Library) : Command Recipe := do
  let tree := (← get).tree
  let calls := Evaluation.calls r.options tree r.recipe library
  modify fun report =>
    { report with printed := library.printedBy tree calls, tree := library.filesAfter tree calls }
  Command.ofOutcome ((Evaluation.recipe r.options tree r.recipe library).mapError (.evaluate r.recipe))

def render (r : RenderRequest) (library : Script.Library) : Command Unit := do
  let recipe ← evaluate r library
  let text := (← Command.ofOutcome (document r recipe)) ++ "\n"
  match r.out with
  | some path => Command.writeFile path text
  | none => Command.print text

section

variable (request : Request) (tree : FileTree) (library : Script.Library := .basic)

def command : Command Unit :=
  match request with
  | .version => Command.print (title ++ "\n")
  | .info json => Command.print ((if json then Json.pretty infoDatum else infoText) ++ "\n")
  | .render r => render r library

def perform : Except CommandError Unit × Report := (command request library).run { tree }

def execute : Outcome CommandError Report :=
  let (result, report) := perform request tree library
  { result := result.map fun () => report, warnings := report.warnings }

end

inductive Failure where
  | usage (cause : UsageError)
  | command (cause : CommandError)
  deriving DecidableEq, Repr

def Failure.message : Failure → String
  | .usage cause => "error: " ++ cause.message
  | .command cause => "✗ " ++ cause.message

def Failure.exitCode : Failure → UInt32
  | .usage _ => 2
  | .command _ => 1

structure Ending extends Report where
  failure : Option Failure := none

def Ending.exitCode (ending : Ending) : UInt32 := (ending.failure.map Failure.exitCode).getD 0

def run (words : List String) (tree : FileTree) (library : Script.Library := .basic) : Ending :=
  match Request.read words with
  | .error cause => { tree, failure := some (.usage cause) }
  | .ok request =>
    match perform request tree library with
    | (.ok (), report) => { report with }
    | (.error cause, report) => { report with failure := some (.command cause) }

end ContainerRecipe.CommandLine
