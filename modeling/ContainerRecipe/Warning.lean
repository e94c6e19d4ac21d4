namespace ContainerRecipe

inductive Warning where
  | unknownDistribution (image : String)
  | licenseNotAccepted (block : String)
  | powertoolsUnavailable
  | variableOverwritten (name : String)
  | kindSkipped (expected found : String)
  | stageSkipped (expected found : Option String)
  | ownerSkipped (expected found : Option String)
  | appIgnored (kind app : String)
  | extraEntrypoints (dropped : Nat)
  | excludeIgnored (stage : String)
  | noScriptForm (kind : String)
  deriving DecidableEq, Repr

def Warning.message : Warning → String
  | .unknownDistribution _ =>
    "unable to determine the Linux distribution of the base image, using the fallback"
  | .licenseNotAccepted _ => "license agreement not accepted, generating the block anyway"
  | .powertoolsUnavailable => "the PowerTools repository needs a yum4 distribution, skipping"
  | .variableOverwritten _ => "overwriting toolchain variable"
  | .kindSkipped _ _ => "skipping mismatched primitive while merging"
  | .stageSkipped _ _ => "skipping copy from a different stage while merging"
  | .ownerSkipped _ _ => "skipping copy with a different owner while merging"
  | .appIgnored _ _ => "SCI-F applications are a Singularity feature, ignoring the app scope"
  | .extraEntrypoints _ => "ENTRYPOINT takes a single command, ignoring the rest"
  | .excludeIgnored _ => "%files from cannot exclude paths, ignoring the exclude list"
  | .noScriptForm _ => "primitive has no bash equivalent, skipping"

structure Logged (α : Type) where
  value : α
  warnings : List Warning := []
  deriving DecidableEq, Repr

namespace Logged

instance : Monad Logged where
  pure a := ⟨a, []⟩
  bind x f := ⟨(f x.value).value, x.warnings ++ (f x.value).warnings⟩

instance : LawfulMonad Logged :=
  .mk' _
    (fun x => by simp [Functor.map])
    (fun _ _ => by simp [bind, pure])
    (fun x f g => by simp [bind, List.append_assoc])

def warn (w : Warning) : Logged Unit := ⟨(), [w]⟩

@[simp] theorem value_pure (a : α) : (pure a : Logged α).value = a := rfl
@[simp] theorem warnings_pure (a : α) : (pure a : Logged α).warnings = [] := rfl
@[simp] theorem value_bind (x : Logged α) (f : α → Logged β) :
    (x >>= f).value = (f x.value).value := rfl
@[simp] theorem warnings_bind (x : Logged α) (f : α → Logged β) :
    (x >>= f).warnings = x.warnings ++ (f x.value).warnings := rfl
@[simp] theorem warnings_map (f : α → β) (x : Logged α) : (f <$> x).warnings = x.warnings :=
  List.append_nil x.warnings

end Logged

-- A result or an error, and the warnings given on the way to it, in order.
structure Outcome (ε α : Type) where
  result : Except ε α
  warnings : List Warning := []

namespace Outcome

def andThen (x : Outcome ε α) (f : α → Outcome ε β) : Outcome ε β :=
  match x.result with
  | .ok a => ⟨(f a).result, x.warnings ++ (f a).warnings⟩
  | .error e => ⟨.error e, x.warnings⟩

instance : Monad (Outcome ε) where
  pure a := ⟨.ok a, []⟩
  bind := andThen

instance : LawfulMonad (Outcome ε) :=
  .mk' _
    (fun x => by cases h : x.result <;> simp [Functor.map, andThen, h] <;> cases x <;> simp_all)
    (fun _ _ => by simp [bind, pure, andThen])
    (fun x f g => by
      cases h : x.result with
      | error e => simp [bind, andThen, h]
      | ok a => cases k : (f a).result <;> simp [bind, andThen, h, k, List.append_assoc])

instance : MonadExceptOf ε (Outcome ε) where
  throw e := ⟨.error e, []⟩
  tryCatch x f :=
    match x.result with
    | .ok _ => x
    | .error e => ⟨(f e).result, x.warnings ++ (f e).warnings⟩

def warn (w : Warning) : Outcome ε Unit := ⟨.ok (), [w]⟩

def ofLogged (x : Logged α) : Outcome ε α := ⟨.ok x.value, x.warnings⟩

def ofExcept (x : Except ε α) : Outcome ε α := ⟨x, []⟩

def mapError (f : ε → δ) (x : Outcome ε α) : Outcome δ α := ⟨x.result.mapError f, x.warnings⟩

instance : MonadLift Logged (Outcome ε) := ⟨ofLogged⟩

@[simp] theorem result_pure (a : α) : (pure a : Outcome ε α).result = .ok a := rfl
@[simp] theorem warnings_pure (a : α) : (pure a : Outcome ε α).warnings = [] := rfl
@[simp] theorem result_throw (e : ε) : (throw e : Outcome ε α).result = .error e := rfl
@[simp] theorem warnings_throw (e : ε) : (throw e : Outcome ε α).warnings = [] := rfl
@[simp] theorem result_warn (w : Warning) : (warn w : Outcome ε Unit).result = .ok () := rfl
@[simp] theorem warnings_warn (w : Warning) : (warn w : Outcome ε Unit).warnings = [w] := rfl

theorem bind_of_ok {x : Outcome ε α} (h : x.result = .ok a) (f : α → Outcome ε β) :
    x >>= f = ⟨(f a).result, x.warnings ++ (f a).warnings⟩ := by
  show andThen x f = _
  simp [andThen, h]

theorem bind_of_error {x : Outcome ε α} (h : x.result = .error e) (f : α → Outcome ε β) :
    x >>= f = ⟨.error e, x.warnings⟩ := by
  show andThen x f = _
  simp [andThen, h]

end Outcome

end ContainerRecipe
