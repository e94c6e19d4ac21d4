import ContainerRecipe.Script.Call
import ContainerRecipe.Script.Reader

namespace ContainerRecipe.Script

-- What is run apart from the statements at hand: the file that a path leads to, or a function with its arguments.
inductive Task where
  | file (path : String)
  | call (c : Closure) (arguments : List Value)

def first (values : List Value) : Value := values.headD .nil

namespace Action

mutual

def takeReply : Reply → Action Value
  | .nil => return .nil
  | .flag b => return .flag b
  | .number n => return .number n
  | .bytes content => return .bytes content
  | .function name => return .function (.library name)
  | .table fields => do newTable (.ofParts [] (← takeFields fields))

def takeFields : List (String × Reply) → Action (List (String × Value))
  | [] => return []
  | (name, reply) :: rest => do
    let v ← takeReply reply
    return (name, v) :: (← takeFields rest)

end

def takeReplies : List Reply → Action (List Value)
  | [] => return []
  | reply :: rest => do
    let v ← takeReply reply
    return v :: (← takeReplies rest)

-- The value that a value holds under a key. A text has the functions of the library of texts.
def index (subject key : Value) : Action Value := do
  let field (place : Nat) : Action Value := do
    return (key.key?.map ((← get).table place).get).getD .nil
  match subject with
  | .table place => field place
  | .bytes _ => field Session.textLibraryPlace
  | .stage index =>
    let stage ← ofOutcome (.ofExcept ((← get).stageAt index))
    let name := match key with
      | .bytes content => (String.fromUTF8? content).getD ""
      | _ => ""
    match StageField.all.find? (·.text = name), Method.all.find? (·.text = name) with
    | some field, _ => return Session.stageField stage field
    | none, some m => return .function (.method m)
    | none, none => return .nil
  | v => misuse (.index v.typeName)

def concat (left right : Value) : Action Value := do
  match left.bytes?, right.bytes? with
  | some a, some b => return .bytes (a ++ b)
  | none, _ => misuse (.concat left.typeName)
  | _, none => misuse (.concat right.typeName)

def storeValue (subject key v : Value) : Action Unit :=
  match subject with
  | .table place =>
    match key.key? with
    | some k => store place k v
    | none => misuse .keyless
  | v => misuse (.store v.typeName)

def filePath (v : Value) : Action String := do
  if v.isNil then refuse .fileWithoutPath
  return (← get).pathFrom (← ofOutcome (.ofExcept v.asText))

-- The paths that templates stand for, in order. A point in the name of a module leads into a directory.
def modulePaths (templates name : String) : List String :=
  let name := name.toList.map fun c => if c = '.' then '/' else c
  let filled := templates.toList.flatMap fun c => if c = '?' then name else [c]
  (filled.splitOn ';').map String.ofList

def findModule (name : ByteArray) : Action String := do
  let tree ← files
  let name ← ofOutcome (.ofExcept (Value.bytes name).asText)
  let templates ← ofOutcome (.ofExcept (← get).modulePath.asText)
  match (modulePaths templates name).find? fun path => (tree.resolve path).toOption.isSome with
  | some path => return path
  | none => misuse (.noModule name)

def moduleName (v : Value) : Action ByteArray :=
  match v.bytes? with
  | some content => return ⟨(content.toList.takeWhile (· ≠ 0)).toArray⟩
  | none => misuse (.argument v.typeName)

-- The value of a module. A module that has no value that counts as true is run, and the path that it was
-- found at is given back as well; one that gives nothing back has the value true.
def requireModule (load : Task → Action (List Value)) (name : ByteArray) : Action (List Value) := do
  let known := (← get).moduleValue name
  if known.truthy then return [known]
  let path ← findModule name
  let v := first (← deeper 1 (load (.file path)))
  if !v.isNil then keepModule name v
  if ((← get).moduleValue name).isNil then keepModule name (.flag true)
  return [(← get).moduleValue name, .text path]

-- Calls a function. A method takes the stage as its first argument.
def callFunction (load : Task → Action (List Value)) (f : Function) (arguments : List Value) :
    Action (List Value) := do
  match f with
  | .stage => return [← callStage arguments]
  | .dofile => load (.file (← filePath (argument arguments 0)))
  | .require => requireModule load (← moduleName (argument arguments 0))
  | .loadfile => refuse .loadWithoutRun
  | .method m =>
    match argument arguments 0 with
    | .stage index => callMethod index m (arguments.drop 1)
    | _ => throw .conversion
  | .library name => takeReplies (← askLibrary name arguments)
  | .made number =>
    match ← closureAt number with
    | some c => load (.call c arguments)
    | none => return []

def call (load : Task → Action (List Value)) (f : Value) (arguments : List Value) : Action (List Value) :=
  match f with
  | .function f => callFunction load f arguments
  | v => misuse (.call v.typeName)

end Action

mutual

-- The values of an expression, of which there is one unless it is a call. Files and functions are run by `load`.
def evaluate (load : Task → Action (List Value)) : Expression → Action (List Value)
  | .constant v => return [v]
  | .variable name => return [← Action.variableValue name]
  | .global name => return [(← get).global name]
  | .directory => return [.ofText? (← read).directory]
  | .function parameters body => return [← Action.newFunction parameters body]
  | .index subject key => do
    let subject := first (← evaluate load subject)
    return [← Action.index subject (first (← evaluate load key))]
  | .concat left right => do
    let left := first (← evaluate load left)
    return [← Action.concat left (first (← evaluate load right))]
  | .either left right => do
    let left := first (← evaluate load left)
    if left.truthy then return [left] else return [first (← evaluate load right)]
  | .same left right => do
    let left := first (← evaluate load left)
    return [.flag (left.same (first (← evaluate load right)))]
  | .call f arguments => do
    let f := first (← evaluate load f)
    Action.call load f (← evaluateAll load arguments)
  | .method subject name arguments => do
    let subject := first (← evaluate load subject)
    let f ← Action.index subject (.text name)
    Action.call load f (subject :: (← evaluateAll load arguments))
  | .table items [] => return [← Action.newTable (.ofParts (← evaluateAll load items) [])]
  | .table items fields => do
    let items ← evaluateEach load items
    return [← Action.newTable (.ofParts items (← evaluateFields load fields))]

def evaluateAll (load : Task → Action (List Value)) : List Expression → Action (List Value)
  | [] => return []
  | [e] => evaluate load e
  | e :: rest => do
    let v := first (← evaluate load e)
    return v :: (← evaluateAll load rest)

def evaluateEach (load : Task → Action (List Value)) : List Expression → Action (List Value)
  | [] => return []
  | e :: rest => do
    let v := first (← evaluate load e)
    return v :: (← evaluateEach load rest)

def evaluateFields (load : Task → Action (List Value)) :
    List (String × Expression) → Action (List (String × Value))
  | [] => return []
  | (name, e) :: rest => do
    let v := first (← evaluate load e)
    return (name, v) :: (← evaluateFields load rest)

end

def evaluateOne (load : Task → Action (List Value)) (e : Expression) : Action Value :=
  first <$> evaluate load e

mutual

def run (load : Task → Action (List Value)) : Statement → Action (Option (List Value))
  | .assign name e => do
    Action.assign name (← evaluateOne load e)
    return none
  | .evaluate e => do
    let _ ← evaluate load e
    return none
  | .giveBack e => some <$> evaluate load e
  | .store subject key e => do
    let subject ← evaluateOne load subject
    let key ← evaluateOne load key
    Action.storeValue subject key (← evaluateOne load e)
    return none
  | .attempt body => do
    let _ ← Action.succeeds (Action.deeper 1 (runAll load body))
    return none
  | .branch condition whenTrue whenFalse => do
    if (← evaluateOne load condition).truthy then runAll load whenTrue else runAll load whenFalse

def runAll (load : Task → Action (List Value)) : Program → Action (Option (List Value))
  | [] => return none
  | statement :: rest => do
    match ← run load statement with
    | some vs => return some vs
    | none => runAll load rest

end

def readFile (path : String) : Action (Path × String) := do
  let tree ← Action.files
  match tree.follow path with
  | .error e => Action.refuse (.unresolved path e)
  | .ok p =>
    match tree.textAt p with
    | .error e => Action.refuse (.unreadable p.text e)
    | .ok text => return (p, text)

-- A file is run in its own directory, and gives back one value; a function where it is called, and gives back
-- all its values. The bound is on the files and calls that are under way.
def runTask : Nat → Task → Action (List Value)
  | 0, _ => Action.misuse .tooDeep
  | bound + 1, .file path => do
    let (p, text) ← readFile path
    match Program.read? text with
    | some program =>
      Action.deeper (Program.nesting program) <| Action.within p do
        return [first ((← runAll (runTask bound) program).getD [])]
    | none => throw (.malformed p.text)
  | bound + 1, .call c arguments =>
    Action.applying c arguments do return (← runAll (runTask bound) c.body).getD []

-- How many calls can be under way before there is no room for more.
def callLimit : Nat := 200000

def load : Task → Action (List Value) := runTask callLimit

-- Runs one statement of an interactive session. A value that is only computed is shown, and an attempt tells
-- whether it succeeded.
def interact (statement : Statement) : Action Value :=
  Action.deeper statement.nesting do
    match statement with
    | .evaluate e => evaluateOne load e
    | .attempt body => Value.flag <$> Action.succeeds (Action.deeper 1 (runAll load body))
    | statement =>
      let _ ← run load statement
      return .nil

def Session.step (setting : Setting) (s : Session) (x : Action α) : Except Fault α × Session :=
  (x.run setting).run.run s

end ContainerRecipe.Script
