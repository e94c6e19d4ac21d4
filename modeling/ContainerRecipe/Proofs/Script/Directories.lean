import ContainerRecipe.Evaluation
import ContainerRecipe.Proofs.Script.Runs
import ContainerRecipe.Proofs.Script.Tasks

namespace ContainerRecipe.Script

open Session ContainerRecipe.Script.Action

-- What a relative path leads to from a directory, if there is one.
def startingFrom (directory : Option String) (path : String) : String :=
  (directory.map (FileTree.join · path)).getD path

-- An event in a statement that is written in a file, where the paths of files to run and of fragments to read
-- start from a directory. The script is told the directory of the file.
structure Event.At (e : Event) (place : Option Path) (directory : Option String) : Prop where
  file : e.setting.file = place
  current : e.session.directory = directory
  told : ∀ load, e.session.step e.setting (evaluate load .directory) =
    (.ok [.ofText? (place.map Path.directory)], e.session)
  runs : ∀ (v : Value) path, v.asText = .ok path →
    e.session.step e.setting (filePath v) = (.ok (startingFrom directory path), e.session)
  reads : ∀ path, readFragment e.setting e.session (some path) =
    (((e.session.files e.setting).readText (startingFrom directory path)).map some).mapError fun cause =>
      .refusal (.unreadableFragment cause)

-- An event in a statement of the file at `p`, where paths start from its own directory.
abbrev Event.InFile (e : Event) (p : Path) : Prop := e.At (some p) (some p.directory)

-- The file that a step is written in, and the directory that paths start from there.
abbrev Place := Option Path × Option String

def Place.ofFile (p : Path) : Place := (some p, some p.directory)

def Event.place (e : Event) : Place := (e.setting.file, e.session.directory)

theorem Event.At.of_place {e : Event} {place : Option Path} {directory : Option String}
    (same : e.place = (place, directory)) : e.At place directory := by
  obtain ⟨written, current⟩ := Prod.mk.inj same
  have start (path : String) : e.session.pathFrom path = startingFrom directory path := by
    unfold pathFrom startingFrom
    rw [current]
    cases directory <;> rfl
  refine ⟨written, current, fun load => ?_, fun v path text => ?_, fun path => ?_⟩
  · simp only [evaluate]
    rw [step_bind_of_ok _ _ (step_read ..), Setting.directory, written]
    rfl
  · have present : v.isNil = false := by
      cases v with
      | nil => cases text
      | _ => rfl
    have asked : filePath v = do return (← get).pathFrom (← ofOutcome (.ofExcept v.asText)) := by
      unfold filePath
      rw [present]
      rfl
    have decoded : e.session.step e.setting (ofOutcome (.ofExcept v.asText)) = (.ok path, e.session) := by
      rw [step_ofExcept, text]
    rw [asked, step_bind_of_ok _ _ (step_get ..), step_bind_of_ok _ _ decoded, step_pure, start]
  · unfold readFragment
    dsimp only
    rw [start]
    cases (e.session.files e.setting).readText (startingFrom directory path) <;> rfl

section

variable {Q : Place → Place → Prop}

-- An action puts the directory back, and `Q` holds between the place where it starts and each of its events.
def Action.Returns (Q : Place → Place → Prop) (x : Action α) (trace : Trace) : Prop :=
  ∀ (setting : Setting) (s : Session), (s.step setting x).2.directory = s.directory ∧
    ∀ e ∈ trace setting s, Q (setting.file, s.directory) e.place

theorem returns_of_same {x : Action α}
    (same : ∀ setting (s : Session), (s.step setting x).2.directory = s.directory) : x.Returns Q .none :=
  fun setting s => ⟨same setting s, fun _ member => absurd member List.not_mem_nil⟩

theorem Action.Still.returns {x : Action α} (still : x.Still) : x.Returns Q .none :=
  returns_of_same fun setting s => by rw [still]

namespace Action.Returns

theorem bind {x : Action α} {f : α → Action β} {part : Trace} {rest : α → Trace} (first : x.Returns Q part)
    (more : ∀ a, (f a).Returns Q (rest a)) : (x >>= f).Returns Q (part.andThen x rest) := by
  intro setting s
  obtain ⟨same, before⟩ := first setting s
  unfold Trace.andThen
  rw [step_bind]
  cases result : s.step setting x with
  | mk told next =>
    rw [result] at same
    cases told with
    | ok a =>
      obtain ⟨last, behind⟩ := more a setting next
      rw [show next.directory = s.directory from same] at last behind
      exact ⟨last, List.forall_mem_append.mpr ⟨before, behind⟩⟩
    | error fault => exact ⟨same, List.forall_mem_append.mpr ⟨before, List.forall_mem_nil _⟩⟩

theorem succeeds {x : Action α} {inside : Trace} (returns : x.Returns Q inside) :
    (succeeds x).Returns Q inside := by
  intro setting s
  rw [step_succeeds_session]
  exact returns setting s

theorem deeper (nesting : Nat) {x : Action α} {inside : Trace} (returns : x.Returns Q inside) :
    (deeper nesting x).Returns Q (inside.deeper nesting) := by
  intro setting s
  rw [Trace.deeper_eq, step_deeper]
  split
  · exact ⟨rfl, List.forall_mem_nil _⟩
  · exact returns { setting with level := setting.level + 1 } s

theorem mark (refl : ∀ a, Q a a) {x : Action α} {rest : Trace} (operation : Operation)
    (returns : x.Returns Q rest) : x.Returns Q (.mark operation rest) := by
  intro setting s
  obtain ⟨same, events⟩ := returns setting s
  exact ⟨same, List.forall_mem_cons.mpr ⟨refl _, events⟩⟩

-- Whatever a file does to the directory is undone, so what holds at the places in it is all that counts.
theorem within {R : Place → Place → Prop} (fresh : ∀ p a b, Q (.ofFile p) b → R a b) (p : Path) {x : Action α}
    {inside : Trace} (returns : x.Returns Q inside) : (within p x).Returns R (inside.within p) := by
  intro setting s
  rw [Trace.within_eq, step_within]
  obtain ⟨-, events⟩ :=
    returns { setting with file := some p, locals := [] } { s with directory := some p.directory }
  exact ⟨rfl, fun e member => fresh p _ _ (events e member)⟩

theorem applying {R : Place → Place → Prop} (c : Closure) (moved : ∀ a b, Q (c.file, a.2) b → R a b)
    (arguments : List Value) {x : Action α} {inside : Trace} (returns : x.Returns Q inside) :
    (applying c arguments x).Returns R (inside.applying c arguments) := by
  intro setting s
  rw [Trace.applying_eq, step_applying]
  obtain ⟨same, events⟩ :=
    returns (c.setting s.cells.length setting) { s with cells := s.cells ++ c.given arguments }
  exact ⟨same, fun e member => moved (setting.file, s.directory) _ (events e member)⟩

end Action.Returns

theorem returns_binding (load : Task → Action (List Value)) {f : Function} (arguments : List Value)
    (binding : f.isBinding = true) : (callFunction load f arguments).Returns Q .none := by
  refine returns_of_same fun setting s => ?_
  cases f with
  | stage =>
    rcases step_stage setting s load arguments with ⟨fault, warnings, failed⟩ | ⟨stage, warnings, -, done⟩
    · rw [failed]
    · rw [done]
  | method m =>
    rcases step_method setting s load m arguments with
      ⟨fault, warnings, failed⟩ | ⟨index, stage, effect, warnings, values, tables, -, -, -, done⟩
    · rw [failed]
    · rw [done]
  | dofile | require | loadfile | library | made => cases binding

-- Every statement puts the directory back if the tasks that it sets do.
theorem returns_holdsOfSteps (refl : ∀ a, Q a a) :
    HoldsOfSteps (fun _ _ => True) fun _ x trace _ => x.Returns Q trace where
  grows _ _ := trivial
  plain _ _ _ := trivial
  pure a _ := (still_pure a).returns
  throw fault := (still_throw fault).returns
  bind first more := first.bind fun a => more _ a (Nat.le_refl _) fun _ _ => trivial
  succeeds := Action.Returns.succeeds
  deeper nesting _ _ _ returns := returns.deeper nesting
  mark _ _ returns := returns.mark refl _
  variableValue _ name := (still_variableValue name).returns
  global _ _ := (still_get.bind fun _ => still_pure _).returns
  moduleValue _ _ := (still_get.bind fun _ => still_pure _).returns
  directory _ := (still_read.bind fun _ => still_pure _).returns
  newFunction _ _ _ _ := returns_of_same fun _ _ => rfl
  closureAt _ number := (still_closureAt number).returns
  newTable _ _ _ _ _ := returns_of_same fun _ _ => rfl
  assign _ name v _ := returns_of_same fun setting s => by
    rw [step_assign]
    cases setting.locals.lookup name <;> rfl
  store _ _ _ _ _ _ := returns_of_same fun _ _ => rfl
  filePath _ v := (still_filePath v).returns
  findModule _ name := (still_findModule name).returns
  index _ subject key _ _ := (still_index subject key).returns.mark refl _
  askLibrary _ name arguments _ := (returns_of_same fun setting s => by rw [step_askLibrary]).mark refl _
  binding _ load _ arguments binding _ := (returns_binding load arguments binding).mark refl _

end

-- Paths start where they do at the start, or else from the directory of a file.
def Place.Reaches (a b : Place) : Prop := b.2 = a.2 ∨ ∃ p : Path, b.2 = some p.directory

theorem reaches_holdsOfParts : HoldsOfParts (Action.Returns Place.Reaches) where
  toHoldsOfSteps := returns_holdsOfSteps fun _ => .inl rfl
  within p _ _ _ returns := by
    refine returns.within (fun p a b reached => .inr ?_) p
    rcases reached with same | inside
    · exact ⟨p, same⟩
    · exact inside
  applying c arguments _ _ _ _ returns := returns.applying c (fun _ _ reached => reached) arguments
  readFile _ path := (still_readFile path).returns
  program _ _ _ _ := trivial

-- Statements are all where the program starts that they stand in.
theorem runAll_returns (bound : Nat) (program : Program) :
    (runAll (runTask bound) program).Returns Eq (.runAll (runTask bound) (fun _ => .none) program) := by
  have tasks (task : Task) : (runTask bound task).Returns Eq .none :=
    returns_of_same fun setting s => (reaches_holdsOfParts.runTask bound task setting s).1
  exact (returns_holdsOfSteps fun _ => rfl).runAll (fun _ task _ => tasks task) 0 program fun _ _ => trivial

theorem step_readFile_ok {setting : Setting} {s next : Session}
    (read : s.step setting (readFile path) = (.ok (p, text), next)) :
    (s.files setting).follow path = .ok p ∧ next = s := by
  refine ⟨?_, ?_⟩
  · unfold readFile at read
    rw [step_bind_of_ok _ _ (step_files ..)] at read
    split at read
    · cases read
    · rename_i found
      split at read
      · cases read
      · cases read
        exact found
  · have still := still_readFile path setting s
    rw [read] at still
    exact still

-- What happens in running a file happens in its program, which starts in the file that the path leads to.
theorem mem_ofTask_file {tasks : Task → Trace} {setting : Setting} {s : Session} {e : Event}
    (member : e ∈ Trace.ofTask bound tasks (.file path) setting s) :
    ∃ p program level, (s.files setting).follow path = .ok p ∧
      e ∈ Trace.runAll (runTask bound) tasks program { setting with file := some p, locals := [], level }
        { s with directory := some p.directory } := by
  obtain ⟨⟨p, text⟩, next, read, inside⟩ := (Trace.mem_andThen.mp member).resolve_left List.not_mem_nil
  obtain ⟨found, rfl⟩ := step_readFile_ok read
  dsimp only at inside
  cases held : Program.read? text with
  | none =>
    rw [held] at inside
    cases inside
  | some program =>
    rw [held] at inside
    dsimp only at inside
    rw [Trace.deeper_eq, Trace.within_eq] at inside
    split at inside
    · cases inside
    · exact ⟨p, program, setting.level + 1, found, inside⟩

theorem own_file {setting : Setting} {s : Session} {e : Event}
    (member : e ∈ Trace.own bound (.file path) setting s) :
    ∃ p, (s.files setting).follow path = .ok p ∧ e.InFile p := by
  cases bound with
  | zero => cases member
  | succ bound =>
    obtain ⟨p, program, level, found, inside⟩ := mem_ofTask_file member
    exact ⟨p, found, .of_place ((runAll_returns bound program _ _).2 e inside).symm⟩

theorem own_call {c : Closure} {setting : Setting} {s : Session} {e : Event}
    (member : e ∈ Trace.own bound (.call c arguments) setting s) : e.At c.file s.directory := by
  cases bound with
  | zero => cases member
  | succ bound =>
    change e ∈ (Trace.runAll (runTask bound) (fun _ => .none) c.body).applying c arguments setting s at member
    rw [Trace.applying_eq] at member
    exact .of_place ((runAll_returns bound c.body _ _).2 e member).symm

-- Paths start from the directory of a file in all that running a file comes to.
theorem mem_runTask_file {setting : Setting} {s : Session} {e : Event}
    (member : e ∈ Trace.runTask bound (.file path) setting s) : ∃ p : Path, e.session.directory = some p.directory := by
  cases bound with
  | zero => cases member
  | succ bound =>
    obtain ⟨p, program, level, -, inside⟩ := mem_ofTask_file member
    have events := reaches_holdsOfParts.runAll (fun _ task _ => reaches_holdsOfParts.runTask bound task) 0 program
      fun _ _ => trivial
    rcases (events _ _).2 e inside with same | reached
    · exact ⟨p, same⟩
    · exact reached

-- Loads and calls put the directory back, whatever comes of them. All that a load does in the statements of its
-- file is done in this file, where paths start from its directory. A call is told the directory of the file
-- that the function is written in, but its paths start from where those of its caller do. All that a load
-- comes to, at every depth and also behind a load that fails, is done in a file or a function in one of these ways.
theorem loads_keep_directories (bound : Nat) (setting : Setting) (s : Session) :
    (∀ task, (s.step setting (runTask bound task)).2.directory = s.directory) ∧
      (∀ path, ∀ e ∈ Trace.own bound (.file path) setting s,
        ∃ p, (s.files setting).follow path = .ok p ∧ e.InFile p) ∧
      (∀ c arguments, ∀ e ∈ Trace.own bound (.call c arguments) setting s, e.At c.file s.directory) ∧
      ∀ path, ∀ e ∈ Trace.runTask bound (.file path) setting s,
        ∃ bound task setting s, e ∈ Trace.own bound task setting s ∧
          match task with
          | .file _ => ∃ p, e.InFile p
          | .call c _ => ∃ p : Path, s.directory = some p.directory ∧ e.At c.file (some p.directory) := by
  refine ⟨fun task => (reaches_holdsOfParts.runTask bound task setting s).1, fun _ _ => own_file,
    fun _ _ _ => own_call, fun path e member => ?_⟩
  obtain ⟨bound, task, setting, s, inside⟩ := Trace.mem_own_of_mem_runTask member
  refine ⟨bound, task, setting, s, inside, ?_⟩
  cases task with
  | file path =>
    obtain ⟨p, -, held⟩ := own_file inside
    exact ⟨p, held⟩
  | call c arguments =>
    obtain ⟨p, reached⟩ := mem_runTask_file member
    have held := own_call inside
    have same : s.directory = some p.directory := held.current.symm.trans reached
    exact ⟨p, same, same ▸ held⟩

-- A function that is called after its file was run does not find what stands beside this file.
theorem loads_leave_functions :
    let tree : FileTree :=
      { files :=
          [(["recipe.lua"], "dofile('parts/f.lua')()".toUTF8),
            (["parts", "f.lua"], "return function() return dofile('name.lua') end".toUTF8),
            (["name.lua"], "recipe.stage('ubuntu:22.04')".toUTF8),
            (["parts", "name.lua"], "recipe.stage('ubuntu:24.04')".toUTF8)] }
    (∃ e ∈ Trace.load (.file "recipe.lua") { tree } (Session.start {} none),
      e.setting.file = some ["parts", "f.lua"] ∧ e.session.directory ≠ some (Path.directory ["parts", "f.lua"])) ∧
      (Evaluation.recipe {} tree "recipe.lua").result.map (·.stages.map (·.base.image)) = .ok ["ubuntu:22.04"] := by
  decide +kernel

end ContainerRecipe.Script
