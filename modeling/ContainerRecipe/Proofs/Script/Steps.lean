import ContainerRecipe.Script.Run

namespace ContainerRecipe.Script.Session

variable (setting : Setting) (s : Session)

@[simp] theorem step_pure (a : α) : s.step setting (pure a) = (.ok a, s) := rfl

@[simp] theorem step_throw (fault : Fault) : s.step setting (throw fault : Action α) = (.error fault, s) := rfl

@[simp] theorem step_get : s.step setting get = (.ok s, s) := rfl

@[simp] theorem step_read : s.step setting read = (.ok setting, s) := rfl

@[simp] theorem step_modify (f : Session → Session) :
    s.step setting (modify f : Action Unit) = (.ok (), f s) := rfl

-- An action goes on with what the first part of it gives back, in the session after that part.
theorem step_bind (x : Action α) (f : α → Action β) :
    s.step setting (x >>= f) = match s.step setting x with
      | (.ok a, next) => next.step setting (f a)
      | (.error fault, next) => (.error fault, next) := by
  show (ExceptT.bindCont (fun a => f a setting) (x setting s).1 : StateM Session _) (x setting s).2 =
    match x setting s with
    | (.ok a, next) => next.step setting (f a)
    | (.error fault, next) => (.error fault, next)
  cases x setting s with
  | mk result next => cases result <;> rfl

theorem step_bind_of_ok {x : Action α} (accepted : s.step setting x = (.ok a, next)) (f : α → Action β) :
    s.step setting (x >>= f) = next.step setting (f a) := by
  rw [step_bind, accepted]

theorem step_bind_of_error {x : Action α} (rejected : s.step setting x = (.error fault, next))
    (f : α → Action β) : s.step setting (x >>= f) = (.error fault, next) := by
  rw [step_bind, rejected]

theorem step_of_isOk {x : Action α} (accepted : (s.step setting x).1.isOk = true) :
    ∃ a, s.step setting x = (.ok a, (s.step setting x).2) := by
  cases told : s.step setting x with
  | mk result next =>
    rw [told] at accepted
    cases result with
    | ok a => exact ⟨a, rfl⟩
    | error fault => cases accepted

theorem step_ofOutcome (x : Outcome Fault α) :
    s.step setting (Action.ofOutcome x) = (x.result, { s with warnings := s.warnings ++ x.warnings }) := by
  unfold Action.ofOutcome
  rw [step_bind_of_ok setting s (step_modify setting s _)]
  cases x.result <;> rfl

theorem step_ofExcept (x : Except Fault α) :
    s.step setting (Action.ofOutcome (.ofExcept x)) = (x, s) := by
  rw [step_ofOutcome, Outcome.ofExcept, List.append_nil]

-- What an attempt has done before an error stays.
theorem step_succeeds (x : Action α) : s.step setting (Action.succeeds x) = match s.step setting x with
    | (.ok _, next) => (.ok true, next)
    | (.error _, next) => (.ok false, next) := by
  unfold step Action.succeeds
  simp only [ReaderT.run, ExceptT.run, StateT.run, bind, ReaderT.bind, ExceptT.bind, ExceptT.mk,
    StateT.bind, tryCatch, tryCatchThe, MonadExceptOf.tryCatch, ExceptT.tryCatch, ExceptT.bindCont]
  cases x setting s with
  | mk result next => cases result <;> rfl

theorem step_succeeds_session (x : Action α) :
    (s.step setting (Action.succeeds x)).2 = (s.step setting x).2 := by
  rw [step_succeeds]
  cases s.step setting x with
  | mk result next => cases result <;> rfl

-- What is done deeper is done with one level more, unless it would go too deep.
theorem step_deeper (nesting : Nat) (x : Action α) : s.step setting (Action.deeper nesting x) =
    if Action.levelLimit ≤ setting.level + max 1 nesting then (.error (.misuse .tooDeep), s)
    else s.step { setting with level := setting.level + 1 } x := by
  unfold Action.deeper
  rw [step_bind_of_ok _ _ (step_read ..)]
  split <;> rfl

theorem step_enter (directory : Option String) :
    s.step setting (Action.enter directory) = (.ok (), { s with directory }) := rfl

-- What a file does starts from its directory, and the one before it is put back, also after an error.
theorem step_within (p : Path) (x : Action α) : s.step setting (Action.within p x) =
    match { s with directory := some p.directory }.step { setting with file := some p, locals := [] } x with
    | (result, next) => (result, { next with directory := s.directory }) := by
  unfold Action.within
  rw [step_bind_of_ok _ _ (step_get ..)]
  dsimp only
  rw [step_bind_of_ok _ _ (step_enter ..)]
  show (tryFinally (fun _ => x { setting with file := some p, locals := [] })
      (Action.enter s.directory) : Action α) setting { s with directory := some p.directory } =
    match x { setting with file := some p, locals := [] } { s with directory := some p.directory } with
    | (result, next) => (result, { next with directory := s.directory })
  unfold tryFinally
  simp only [Functor.map, ExceptT.map, tryFinally', ExceptT.mk, bind, StateT.bind]
  cases x { setting with file := some p, locals := [] } { s with directory := some p.directory } with
  | mk result next => cases result <;> rfl

theorem step_applying (c : Closure) (arguments : List Value) (x : Action α) :
    s.step setting (Action.applying c arguments x) =
      { s with cells := s.cells ++ c.given arguments }.step (c.setting s.cells.length setting) x := rfl

theorem step_askLibrary (name : String) (arguments : List Value) :
    s.step setting (Action.askLibrary name arguments) =
      let call := { name, arguments := arguments.map s.datum }
      ((setting.library.answer s.calls call (s.files setting)).result, { s with calls := call :: s.calls }) := by
  unfold Action.askLibrary
  rw [step_bind_of_ok _ _ (step_read ..), step_bind_of_ok _ _ (step_get ..)]
  dsimp only
  change step setting { s with calls := _ :: s.calls } _ = _
  cases (setting.library.answer s.calls { name, arguments := arguments.map s.datum } (s.files setting)).result <;>
    rfl

theorem step_files : s.step setting Action.files = (.ok (s.files setting), s) := rfl

theorem step_variableValue (name : String) : s.step setting (Action.variableValue name) =
    (.ok (s.variableValue setting.locals name), s) := rfl

theorem step_assign (name : String) (v : Value) : s.step setting (Action.assign name v) = (.ok (),
    match setting.locals.lookup name with
    | some place => { s with cells := s.cells.set place v }
    | none => { s with values := setValue name v s.values }) := by
  unfold Action.assign
  rw [step_bind_of_ok _ _ (step_read ..)]
  cases setting.locals.lookup name <;> rfl

theorem step_newFunction (parameters : List String) (body : Program) :
    s.step setting (Action.newFunction parameters body) = (.ok (.function (.made s.closures.length)),
      { s with
        closures := s.closures ++ [{ file := setting.file, locals := setting.locals, parameters, body }] }) := rfl

theorem step_newTable (t : Table) : s.step setting (Action.newTable t) =
    (.ok (.table s.tables.length), { s with tables := s.tables ++ [t] }) := rfl

theorem step_declare (stage : Stage) : s.step setting (Action.declare stage) =
    (.ok (.stage s.recipe.stages.length), { s with recipe := s.recipe.push stage }) := rfl

theorem step_extend (index : Nat) (layers : List Layer) : s.step setting (Action.extend index layers) =
    (.ok (), { s with recipe := s.recipe.append index layers }) := rfl

end ContainerRecipe.Script.Session
