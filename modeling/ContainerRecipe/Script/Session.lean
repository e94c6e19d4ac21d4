import ContainerRecipe.Options
import ContainerRecipe.Recipe
import ContainerRecipe.Script.Library
import ContainerRecipe.Script.Program
import ContainerRecipe.Script.Table

namespace ContainerRecipe.Script

-- Where a step of a script runs. No step can change it for the steps after it.
structure Setting where
  options : Options := {}
  library : Library := .basic
  -- The files before the first step.
  tree : FileTree := {}
  file : Option Path := none
  -- The variables of the functions around, the innermost first, with the places of their values.
  locals : List (String × Nat) := []
  -- How many files and attempts are under way.
  level : Nat := 0

def Setting.directory (setting : Setting) : Option String := setting.file.map Path.directory

-- A function that a script has made, with the file that it is written in and the variables around it.
structure Closure where
  file : Option Path
  locals : List (String × Nat)
  parameters : List String
  body : Program

structure Session where
  recipe : Recipe := ∅
  tables : List Table := []
  values : List (String × Value) := []
  -- The values of the variables of functions.
  cells : List Value := []
  closures : List Closure := []
  -- The calls of the library, the last of which stands first.
  calls : List LibraryCall := []
  warnings : List Warning := []
  -- The directory that relative paths start from. Running a file sets it, and puts it back.
  directory : Option String := none

namespace Closure

-- The values of the parameters when the function is called.
def given (c : Closure) (arguments : List Value) : List Value :=
  c.parameters.mapIdx fun place _ => argument arguments place

-- Where the function runs, with the values of its parameters from `place` on. Of two parameters with one name
-- the last is meant.
def setting (c : Closure) (place : Nat) (around : Setting) : Setting :=
  { around with file := c.file, locals := (c.parameters.zipIdx place).reverse ++ c.locals }

end Closure

abbrev Action := ReaderT Setting (ExceptT Fault (StateM Session))

def setValue (name : String) (v : Value) (entries : List (String × Value)) : List (String × Value) :=
  (name, v) :: entries.filter (·.1 ≠ name)

namespace Session

def globalsPlace : Nat := 0

def modulesPlace : Nat := 1

def packagePlace : Nat := 2

def recipePlace : Nat := 3

def userargPlace : Nat := 4

def textLibraryPlace : Nat := 5

def libraryTable (name : String) (functions : List String) : Table :=
  .ofFields (functions.map fun f => (f, .function (.library (name ++ "." ++ f))))

def libraryFields : List (String × Value) :=
  [("_G", .table globalsPlace), ("package", .table packagePlace)] ++
    (libraries.zipIdx textLibraryPlace).map fun ((name, _), place) => (name, .table place)

def globalsTable : Table :=
  .ofFields
    ([("recipe", .table recipePlace), ("dofile", .function .dofile), ("require", .function .require),
        ("loadfile", .function .loadfile), ("_VERSION", .text "Lua 5.4")] ++
      baseFunctions.map (fun name => (name, .function (.library name))) ++ libraryFields)

-- The templates of module paths in a directory, with a mark for the name.
def modulePathsIn (directory : String) : List String :=
  [directory ++ "/?.lua", directory ++ "/?/init.lua"]

def packageTable (beside : Option String) : Table :=
  let paths := (beside.toList ++ ["."]).flatMap modulePathsIn
  .ofFields [("path", .text (";".intercalate paths)), ("loaded", .table modulesPlace)]

def recipeTable (o : Options) : Table :=
  .ofFields
    [("format", .text o.format.text), ("singularity_version", .text o.singularityVersion.text),
      ("working_directory", .text o.workingDirectory), ("license_policy", .text o.licensePolicy.text),
      ("userarg", .table userargPlace), ("stage", .function .stage)]

def userargTable (o : Options) : Table :=
  .ofFields (o.userarg.entries.map fun (name, value) => (name, .text value))

-- The session before the first step. `beside` is the directory of the recipe's file.
def start (o : Options) (beside : Option String) : Session where
  tables :=
    [globalsTable, .ofFields libraryFields, packageTable beside, recipeTable o, userargTable o] ++
      libraries.map fun (name, functions) => libraryTable name functions

def table (s : Session) (place : Nat) : Table := s.tables.getD place ∅

def pathFrom (s : Session) (path : String) : String :=
  match s.directory with
  | some directory => FileTree.join directory path
  | none => path

-- The files as the library has left them.
def files (s : Session) (setting : Setting) : FileTree := setting.library.filesAfter setting.tree s.calls

def variableValue (s : Session) (locals : List (String × Nat)) (name : String) : Value :=
  match locals.lookup name with
  | some place => s.cells.getD place .nil
  | none => (s.values.lookup name).getD .nil

def global (s : Session) (name : String) : Value := (s.table globalsPlace).get (.ofText name)

def moduleValue (s : Session) (name : ByteArray) : Value := (s.table modulesPlace).get (.bytes name)

def modulePath (s : Session) : Value := (s.table packagePlace).get (.ofText "path")

-- A value as data. `path` holds the tables around it, of which `bound` more can follow.
def datumWithin (s : Session) : Nat → List Nat → Value → Datum
  | _, _, .nil => .null
  | _, _, .flag b => .flag b
  | _, _, .number n => .number n.literal
  | _, _, .bytes content =>
    match String.fromUTF8? content with
    | some text => .text text
    | none => .bytes content
  | _, _, .stage _ => .stage
  | _, _, .function _ => .function
  | 0, _, .table _ => .again
  | bound + 1, path, .table place =>
    if path.contains place then .again
    else
      let t := s.table place
      .table (t.items.map (s.datumWithin bound (place :: path)))
        (t.others.map fun (k, v) =>
          (s.datumWithin bound (place :: path) k.toValue, s.datumWithin bound (place :: path) v))

-- A value as data. No more tables than there are can be inside each other.
def datum (s : Session) (v : Value) : Datum := s.datumWithin s.tables.length [] v

end Session

namespace Action

def ofOutcome (x : Outcome Fault α) : Action α := do
  modify fun s => { s with warnings := s.warnings ++ x.warnings }
  match x.result with
  | .ok a => return a
  | .error fault => throw fault

def misuse (cause : Misuse) : Action α := throw (.misuse cause)

def refuse (cause : Refusal) : Action α := throw (.refusal cause)

def newTable (t : Table) : Action Value := do
  let place := (← get).tables.length
  modify fun s => { s with tables := s.tables ++ [t] }
  return .table place

def files : Action FileTree := do return (← get).files (← read)

def variableValue (name : String) : Action Value := do
  let locals := (← read).locals
  return (← get).variableValue locals name

def newFunction (parameters : List String) (body : Program) : Action Value := do
  let setting ← read
  let number := (← get).closures.length
  let closure := { file := setting.file, locals := setting.locals, parameters, body }
  modify fun s => { s with closures := s.closures ++ [closure] }
  return .function (.made number)

def closureAt (number : Nat) : Action (Option Closure) := do return (← get).closures[number]?

-- Calls a function of the library, which is told what the arguments hold.
def askLibrary (name : String) (arguments : List Value) : Action (List Reply) := do
  let setting ← read
  let s ← get
  let call := { name, arguments := arguments.map s.datum }
  set { s with calls := call :: s.calls }
  match (setting.library.answer s.calls call (s.files setting)).result with
  | .ok replies => return replies
  | .error fault => throw fault

def store (place : Nat) (k : Key) (v : Value) : Action Unit :=
  modify fun s => { s with tables := s.tables.modify place (·.put k v) }

def assign (name : String) (v : Value) : Action Unit := do
  match (← read).locals.lookup name with
  | some place => modify fun s => { s with cells := s.cells.set place v }
  | none => modify fun s => { s with values := setValue name v s.values }

def declare (stage : Stage) : Action Value := do
  let index := (← get).recipe.stages.length
  modify fun s => { s with recipe := s.recipe.push stage }
  return .stage index

def extend (index : Nat) (layers : List Layer) : Action Unit :=
  modify fun s => { s with recipe := s.recipe.append index layers }

def keepModule (name : ByteArray) (v : Value) : Action Unit :=
  store Session.modulesPlace (.bytes name) v

-- Files and attempts can be under way up to this level, not included.
def levelLimit : Nat := 200

-- Runs something one level deeper, if the levels that it is nested stay below the limit.
def deeper (nesting : Nat) (x : Action α) : Action α := do
  if levelLimit ≤ (← read).level + max 1 nesting then misuse .tooDeep
  withReader (fun setting => { setting with level := setting.level + 1 }) x

def enter (directory : Option String) : Action Unit := modify fun s => { s with directory }

-- Runs something as a file does. Relative paths start from its directory until it is done, also if it fails.
def within (p : Path) (x : Action α) : Action α := do
  let previous := (← get).directory
  enter (some p.directory)
  try
    withReader (fun setting => { setting with file := some p, locals := [] }) x
  finally
    enter previous

-- Runs something as a function does. It sees what is around the function, but relative paths start from where
-- they started before the call.
def applying (c : Closure) (arguments : List Value) (x : Action α) : Action α := do
  let place := (← get).cells.length
  modify fun s => { s with cells := s.cells ++ c.given arguments }
  withReader (c.setting place) x

-- Whether something is done without an error. What was done before an error stays.
def succeeds (x : Action α) : Action Bool :=
  try
    let _ ← x
    return true
  catch _ => return false

end Action

end ContainerRecipe.Script
