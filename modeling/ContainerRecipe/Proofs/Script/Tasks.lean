import ContainerRecipe.Proofs.Script.Trace

namespace ContainerRecipe.Script.Trace

-- The events of a task alone, without those of the tasks that it sets.
def own : Nat → Task → Trace
  | 0, _ => none
  | bound + 1, task => ofTask bound (fun _ => none) task

-- Each event of the whole is one of its own part, or else one of a task.
def Splits (tasks : Task → Trace) (whole part : Trace) : Prop :=
  ∀ (setting : Setting) (s : Session), ∀ e ∈ whole setting s, e ∈ part setting s ∨
    ∃ task setting s, e ∈ tasks task setting s

variable {tasks : Task → Trace}

section

theorem splits_refl (t : Trace) : Splits tasks t t := fun _ _ _ member => .inl member

theorem splits_task (task : Task) : Splits tasks (tasks task) none := fun setting s _ member =>
  .inr ⟨task, setting, s, member⟩

theorem mem_andThen {part : Trace} {x : Action α} {rest : α → Trace} {setting : Setting} {s : Session} :
    e ∈ part.andThen x rest setting s ↔
      e ∈ part setting s ∨ ∃ a next, s.step setting x = (.ok a, next) ∧ e ∈ rest a setting next := by
  unfold andThen
  rw [List.mem_append]
  refine or_congr_right ?_
  cases s.step setting x with
  | mk told next =>
    cases told with
    | ok a =>
      constructor
      · exact fun member => ⟨a, next, rfl, member⟩
      · rintro ⟨_, _, ⟨⟩, member⟩
        exact member
    | error fault => simp

theorem Splits.andThen {whole part : Trace} {x : Action α} {further rest : α → Trace}
    (first : Splits tasks whole part) (more : ∀ a, Splits tasks (further a) (rest a)) :
    Splits tasks (whole.andThen x further) (part.andThen x rest) := by
  intro setting s e member
  rcases mem_andThen.mp member with before | ⟨a, next, told, behind⟩
  · exact (first setting s e before).imp_left fun inside => mem_andThen.mpr (.inl inside)
  · exact (more a setting next e behind).imp_left fun inside => mem_andThen.mpr (.inr ⟨a, next, told, inside⟩)

theorem Splits.mark {whole part : Trace} (operation : Operation) (splits : Splits tasks whole part) :
    Splits tasks (.mark operation whole) (.mark operation part) := by
  intro setting s e member
  rcases List.mem_cons.mp member with rfl | behind
  · exact .inl List.mem_cons_self
  · exact (splits setting s e behind).imp_left (List.mem_cons_of_mem _)

theorem Splits.inside {whole part : Trace} (around : Action (Setting × Session) → Action (Setting × Session))
    (splits : Splits tasks whole part) : Splits tasks (whole.inside around) (part.inside around) := by
  intro setting s e member
  unfold Trace.inside at member ⊢
  split at member
  · exact splits _ _ e member
  · cases member

end

section

variable (load : Task → Action (List Value))

theorem requireModule_splits (name : ByteArray) :
    Splits tasks (requireModule tasks name) (requireModule (fun _ => none) name) := by
  refine (splits_refl _).andThen fun known => ?_
  split
  · exact splits_refl _
  · exact (splits_refl _).andThen fun path => (splits_task (.file path)).inside _

theorem call_splits (f : Value) (arguments : List Value) :
    Splits tasks (call tasks f arguments) (call (fun _ => none) f arguments) := by
  refine Splits.mark _ ?_
  cases f with
  | function f =>
    cases f with
    | dofile => exact (splits_refl _).andThen fun path => splits_task (.file path)
    | require => exact (splits_refl _).andThen requireModule_splits
    | made number =>
      refine (splits_refl _).andThen fun found => ?_
      cases found with
      | some c => exact splits_task (.call c arguments)
      | none => exact splits_refl _
    | stage | loadfile | method | library => exact splits_refl _
  | nil | flag | number | bytes | table | stage => exact splits_refl _

mutual

theorem evaluate_splits : (e : Expression) →
    Splits tasks (evaluate load tasks e) (evaluate load (fun _ => none) e)
  | .constant _ | .variable _ | .global _ | .directory | .function _ _ => by
    simp only [evaluate]
    exact splits_refl _
  | .index subject key => by
    simp only [evaluate]
    exact (evaluate_splits subject).andThen fun _ => (evaluate_splits key).andThen fun _ => splits_refl _
  | .concat left right | .same left right => by
    simp only [evaluate]
    exact (evaluate_splits left).andThen fun _ => evaluate_splits right
  | .either left right => by
    simp only [evaluate]
    refine (evaluate_splits left).andThen fun v => ?_
    split
    · exact splits_refl _
    · exact evaluate_splits right
  | .call f arguments => by
    simp only [evaluate]
    exact (evaluate_splits f).andThen fun _ => (evaluateAll_splits arguments).andThen fun _ => call_splits _ _
  | .method subject name arguments => by
    simp only [evaluate]
    exact (evaluate_splits subject).andThen fun _ => (splits_refl _).andThen fun _ =>
      (evaluateAll_splits arguments).andThen fun _ => call_splits _ _
  | .table items [] => by
    simp only [evaluate]
    exact evaluateAll_splits items
  | .table items (field :: fields) => by
    simp only [evaluate]
    exact (evaluateEach_splits items).andThen fun _ => evaluateFields_splits (field :: fields)

theorem evaluateAll_splits : (es : List Expression) →
    Splits tasks (evaluateAll load tasks es) (evaluateAll load (fun _ => none) es)
  | [] => by
    simp only [evaluateAll]
    exact splits_refl _
  | [e] => by
    simp only [evaluateAll]
    exact evaluate_splits e
  | e :: next :: rest => by
    simp only [evaluateAll]
    exact (evaluate_splits e).andThen fun _ => evaluateAll_splits (next :: rest)

theorem evaluateEach_splits : (es : List Expression) →
    Splits tasks (evaluateEach load tasks es) (evaluateEach load (fun _ => none) es)
  | [] => by
    simp only [evaluateEach]
    exact splits_refl _
  | e :: rest => by
    simp only [evaluateEach]
    exact (evaluate_splits e).andThen fun _ => evaluateEach_splits rest

theorem evaluateFields_splits : (fields : List (String × Expression)) →
    Splits tasks (evaluateFields load tasks fields) (evaluateFields load (fun _ => none) fields)
  | [] => by
    simp only [evaluateFields]
    exact splits_refl _
  | (_, e) :: rest => by
    simp only [evaluateFields]
    exact (evaluate_splits e).andThen fun _ => evaluateFields_splits rest

end

mutual

theorem run_splits : (statement : Statement) →
    Splits tasks (run load tasks statement) (run load (fun _ => none) statement)
  | .assign _ e | .evaluate e | .giveBack e => by
    simp only [run]
    exact evaluate_splits load e
  | .store subject key e => by
    simp only [run]
    exact (evaluate_splits load subject).andThen fun _ => (evaluate_splits load key).andThen fun _ =>
      evaluate_splits load e
  | .attempt body => by
    simp only [run]
    exact (runAll_splits body).inside _
  | .branch condition whenTrue whenFalse => by
    simp only [run]
    refine (evaluate_splits load condition).andThen fun v => ?_
    split
    · exact runAll_splits whenTrue
    · exact runAll_splits whenFalse

theorem runAll_splits : (program : Program) →
    Splits tasks (runAll load tasks program) (runAll load (fun _ => none) program)
  | [] => by
    simp only [runAll]
    exact splits_refl _
  | statement :: rest => by
    simp only [runAll]
    refine (run_splits statement).andThen fun given => ?_
    cases given with
    | some vs => exact splits_refl _
    | none => exact runAll_splits rest

end

end

theorem ofTask_splits (bound : Nat) (task : Task) :
    Splits tasks (ofTask bound tasks task) (ofTask bound (fun _ => none) task) := by
  cases task with
  | file path =>
    refine (splits_refl _).andThen fun ⟨p, text⟩ => ?_
    dsimp only
    cases Program.read? text with
    | some program => exact ((runAll_splits _ program).inside _).inside _
    | none => exact splits_refl _
  | call c arguments => exact (runAll_splits (Script.runTask bound) c.body).inside (Action.applying c arguments)

-- What happens in a task happens in it alone, or else in one that is set there, at any depth.
theorem mem_own_of_mem_runTask {bound : Nat} {task : Task} {setting : Setting} {s : Session}
    (member : e ∈ runTask bound task setting s) : ∃ bound task setting s, e ∈ own bound task setting s := by
  induction bound generalizing task setting s with
  | zero => cases member
  | succ bound ih =>
    rcases ofTask_splits bound task setting s e member with alone | ⟨task, setting, s, inside⟩
    · exact ⟨bound + 1, task, setting, s, alone⟩
    · exact ih inside

end ContainerRecipe.Script.Trace
