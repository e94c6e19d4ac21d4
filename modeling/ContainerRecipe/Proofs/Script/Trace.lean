import ContainerRecipe.Proofs.Script.Steps

namespace ContainerRecipe.Script

-- What a script does that reaches beyond the values it has at hand.
inductive Operation where
  | index (subject key : Value)
  | call (f : Value) (arguments : List Value)

-- An operation, in the setting and the session that it is done in.
structure Event where
  setting : Setting
  session : Session
  operation : Operation

-- The events of something that is done in a setting, from a session on.
abbrev Trace := Setting → Session → List Event

namespace Trace

section

def none : Trace := fun _ _ => []

def mark (operation : Operation) (rest : Trace) : Trace := fun setting s =>
  ⟨setting, s, operation⟩ :: rest setting s

-- The events of a part, and then those of what goes on with its result, if it has one.
def andThen (part : Trace) (x : Action α) (rest : α → Trace) : Trace := fun setting s =>
  part setting s ++ match s.step setting x with
    | (.ok a, next) => rest a setting next
    | (.error _, _) => []

-- The events of something that is done inside something else, which is asked what it is done in.
def inside (around : Action (Setting × Session) → Action (Setting × Session)) (events : Trace) : Trace :=
  fun setting s =>
    match (s.step setting (around (do return (← read, ← get)))).1 with
    | .ok (setting, s) => events setting s
    | .error _ => []

def deeper (nesting : Nat) (events : Trace) : Trace := inside (Action.deeper nesting) events

def within (p : Path) (events : Trace) : Trace := inside (Action.within p) events

def applying (c : Closure) (arguments : List Value) (events : Trace) : Trace :=
  inside (Action.applying c arguments) events

theorem andThen_none (part : Trace) (x : Action α) : part.andThen x (fun _ => none) = part := by
  funext setting s
  unfold andThen none
  cases s.step setting x with
  | mk result next => cases result <;> exact List.append_nil _

variable (events : Trace) (setting : Setting) (s : Session)

theorem deeper_eq (nesting : Nat) : events.deeper nesting setting s =
    if Action.levelLimit ≤ setting.level + max 1 nesting then []
    else events { setting with level := setting.level + 1 } s := by
  unfold deeper inside
  rw [Session.step_deeper]
  by_cases deep : Action.levelLimit ≤ setting.level + max 1 nesting
  · rw [if_pos deep, if_pos deep]
  · rw [if_neg deep, if_neg deep]
    rfl

theorem within_eq (p : Path) : events.within p setting s =
    events { setting with file := some p, locals := [] } { s with directory := some p.directory } := by
  unfold within inside
  rw [Session.step_within]
  rfl

theorem applying_eq (c : Closure) (arguments : List Value) : events.applying c arguments setting s =
    events (c.setting s.cells.length setting) { s with cells := s.cells ++ c.given arguments } := rfl

end

section

def requireModule (tasks : Task → Trace) (name : ByteArray) : Trace :=
  none.andThen (do return (← get).moduleValue name) fun known =>
    if known.truthy then none
    else none.andThen (Action.findModule name) fun path => (tasks (.file path)).deeper 1

def callMade (tasks : Task → Trace) (arguments : List Value) : Option Closure → Trace
  | some c => tasks (.call c arguments)
  | Option.none => none

def call (tasks : Task → Trace) (f : Value) (arguments : List Value) : Trace :=
  mark (.call f arguments) <|
    match f with
    | .function .dofile =>
      none.andThen (Action.filePath (argument arguments 0)) fun path => tasks (.file path)
    | .function .require =>
      none.andThen (Action.moduleName (argument arguments 0)) (requireModule tasks)
    | .function (.made number) => none.andThen (Action.closureAt number) (callMade tasks arguments)
    | _ => none

variable (load : Task → Action (List Value)) (tasks : Task → Trace)

mutual

def evaluate : Expression → Trace
  | .constant _ | .variable _ | .global _ | .directory | .function _ _ => none
  | .index subject key =>
    (evaluate subject).andThen (Script.evaluate load subject) fun v =>
      (evaluate key).andThen (Script.evaluate load key) fun k => mark (.index (first v) (first k)) none
  | .concat left right | .same left right =>
    (evaluate left).andThen (Script.evaluate load left) fun _ => evaluate right
  | .either left right =>
    (evaluate left).andThen (Script.evaluate load left) fun v =>
      if (first v).truthy then none else evaluate right
  | .call f arguments =>
    (evaluate f).andThen (Script.evaluate load f) fun f =>
      (evaluateAll arguments).andThen (Script.evaluateAll load arguments) fun vs => call tasks (first f) vs
  | .method subject name arguments =>
    (evaluate subject).andThen (Script.evaluate load subject) fun v =>
      (mark (.index (first v) (.text name)) none).andThen (Action.index (first v) (.text name)) fun f =>
        (evaluateAll arguments).andThen (Script.evaluateAll load arguments) fun vs =>
          call tasks f (first v :: vs)
  | .table items [] => evaluateAll items
  | .table items fields =>
    (evaluateEach items).andThen (Script.evaluateEach load items) fun _ => evaluateFields fields

def evaluateAll : List Expression → Trace
  | [] => none
  | [e] => evaluate e
  | e :: rest => (evaluate e).andThen (Script.evaluate load e) fun _ => evaluateAll rest

def evaluateEach : List Expression → Trace
  | [] => none
  | e :: rest => (evaluate e).andThen (Script.evaluate load e) fun _ => evaluateEach rest

def evaluateFields : List (String × Expression) → Trace
  | [] => none
  | (_, e) :: rest => (evaluate e).andThen (Script.evaluate load e) fun _ => evaluateFields rest

end

mutual

def run : Statement → Trace
  | .assign _ e | .evaluate e | .giveBack e => evaluate load tasks e
  | .store subject key e =>
    (evaluate load tasks subject).andThen (evaluateOne load subject) fun _ =>
      (evaluate load tasks key).andThen (evaluateOne load key) fun _ => evaluate load tasks e
  | .attempt body => (runAll body).deeper 1
  | .branch condition whenTrue whenFalse =>
    (evaluate load tasks condition).andThen (evaluateOne load condition) fun v =>
      if v.truthy then runAll whenTrue else runAll whenFalse

def runAll : Program → Trace
  | [] => none
  | statement :: rest =>
    (run statement).andThen (Script.run load statement) fun given =>
      match given with
      | some _ => none
      | Option.none => runAll rest

end

end

-- The events of a task, by those of the tasks that it sets.
def ofTask (bound : Nat) (tasks : Task → Trace) : Task → Trace
  | .file path =>
    none.andThen (readFile path) fun (p, text) =>
      match Program.read? text with
      | some program => ((runAll (Script.runTask bound) tasks program).within p).deeper (Program.nesting program)
      | Option.none => none
  | .call c arguments => (runAll (Script.runTask bound) tasks c.body).applying c arguments

def runTask : Nat → Task → Trace
  | 0, _ => none
  | bound + 1, task => ofTask bound (runTask bound) task

def load : Task → Trace := runTask callLimit

def interact (statement : Statement) : Trace :=
  deeper statement.nesting <|
    match statement with
    | .attempt body => (runAll Script.load load body).deeper 1
    | statement => run Script.load load statement

end Trace

end ContainerRecipe.Script
