import ContainerRecipe.Warning
import Mathlib.Data.List.Forall2

namespace ContainerRecipe.Outcome

def Fails (x : Outcome ε α) : Prop := ∃ e, x.result = .error e

@[simp] theorem pure_not_fails (a : α) : ¬ (pure a : Outcome ε α).Fails := by
  rintro ⟨e, failed⟩
  cases failed

@[simp] theorem throw_fails (e : ε) : (throw e : Outcome ε α).Fails := ⟨e, rfl⟩

@[simp] theorem warn_not_fails (w : Warning) : ¬ (warn w : Outcome ε Unit).Fails := by
  rintro ⟨e, failed⟩
  cases failed

theorem fails_or_ok (x : Outcome ε α) : x.Fails ∨ ∃ a, x.result = .ok a := by
  cases told : x.result with
  | error e => exact .inl ⟨e, told⟩
  | ok a => exact .inr ⟨a, rfl⟩

theorem not_fails_of_ok {x : Outcome ε α} (accepted : x.result = .ok a) : ¬ x.Fails := by
  rintro ⟨e, failed⟩
  rw [accepted] at failed
  cases failed

theorem ok_iff_not_fails {x : Outcome ε α} : (∃ a, x.result = .ok a) ↔ ¬ x.Fails := by
  constructor
  · rintro ⟨a, accepted⟩
    exact not_fails_of_ok accepted
  · exact (fails_or_ok x).resolve_left

theorem bind_fails_iff {x : Outcome ε α} {f : α → Outcome ε β} :
    (x >>= f).Fails ↔ x.Fails ∨ ∃ a, x.result = .ok a ∧ (f a).Fails := by
  cases told : x.result with
  | error e =>
    have failed : x.Fails := ⟨e, told⟩
    have stopped : (x >>= f).Fails := ⟨e, by rw [bind_of_error told]⟩
    exact ⟨fun _ => .inl failed, fun _ => stopped⟩
  | ok a =>
    have same : (x >>= f).Fails ↔ (f a).Fails := by
      unfold Fails
      rw [bind_of_ok told]
    rw [same]
    constructor
    · intro later
      exact .inr ⟨a, rfl, later⟩
    · rintro (failed | ⟨b, value, later⟩)
      · exact absurd failed (not_fails_of_ok told)
      · cases value
        exact later

-- What cannot fail after a part has no say in whether the whole fails.
theorem bind_fails_iff_left {x : Outcome ε α} {f : α → Outcome ε β} (total : ∀ a, ¬ (f a).Fails) :
    (x >>= f).Fails ↔ x.Fails := by
  rw [bind_fails_iff]
  constructor
  · rintro (failed | ⟨a, -, later⟩)
    · exact failed
    · exact absurd later (total a)
  · exact .inl

theorem bind_unit_fails_iff {x : Outcome ε Unit} {y : Outcome ε β} :
    (x >>= fun _ => y).Fails ↔ x.Fails ∨ y.Fails := by
  rw [bind_fails_iff]
  rcases fails_or_ok x with failed | ⟨_, accepted⟩
  · simp only [failed, true_or]
  · simp [not_fails_of_ok accepted, accepted]

-- A check that is made in some cases only, before what is done in all of them.
theorem guarded_fails_iff {c : Prop} [Decidable c] {x : Outcome ε Unit} {f : Unit → Outcome ε β} :
    (if c then x >>= f else f ()).Fails ↔ c ∧ x.Fails ∨ (f ()).Fails := by
  split
  · rename_i holds
    simp only [holds, true_and]
    exact bind_unit_fails_iff (y := f ())
  · rename_i not
    simp only [not, false_and, false_or]

@[simp] theorem mapError_fails_iff {x : Outcome ε α} {f : ε → δ} : (x.mapError f).Fails ↔ x.Fails := by
  rcases fails_or_ok x with ⟨e, told⟩ | ⟨a, told⟩
  · have failed : (x.mapError f).result = .error (f e) := by
      unfold mapError
      rw [told]
      rfl
    exact ⟨fun _ => ⟨e, told⟩, fun _ => ⟨f e, failed⟩⟩
  · have accepted : (x.mapError f).result = .ok a := by
      unfold mapError
      rw [told]
      rfl
    simp only [not_fails_of_ok told, not_fails_of_ok accepted]

theorem bind_error_iff {x : Outcome ε α} {f : α → Outcome ε β} : (x >>= f).result = .error e ↔
    x.result = .error e ∨ ∃ a, x.result = .ok a ∧ (f a).result = .error e := by
  cases told : x.result with
  | error cause => simp [bind_of_error told]
  | ok a => simp [bind_of_ok told]

theorem bind_ok_iff {x : Outcome ε α} {f : α → Outcome ε β} :
    (x >>= f).result = .ok b ↔ ∃ a, x.result = .ok a ∧ (f a).result = .ok b := by
  cases told : x.result with
  | error cause => simp [bind_of_error told]
  | ok a => simp [bind_of_ok told]

theorem result_ofExcept (x : Except ε α) : (ofExcept x).result = x := rfl

theorem result_liftM (x : Logged α) : (liftM x : Outcome ε α).result = .ok x.value := rfl

-- The same of results alone.
theorem result_bind_ok_iff {x : Except ε α} {f : α → Except ε β} :
    x >>= f = .ok b ↔ ∃ a, x = .ok a ∧ f a = .ok b := by
  cases x with
  | error e => simp [bind, Except.bind]
  | ok a => simp [bind, Except.bind]

theorem result_bind_error_iff {x : Except ε α} {f : α → Except ε β} :
    x >>= f = .error e ↔ x = .error e ∨ ∃ a, x = .ok a ∧ f a = .error e := by
  cases x with
  | error cause => simp [bind, Except.bind]
  | ok a => simp [bind, Except.bind]

theorem ok_of_guarded {c : Prop} [Decidable c] {x : Outcome ε Unit} {f : Unit → Outcome ε β}
    (accepted : (if c then x >>= f else f ()).result = .ok b) : (f ()).result = .ok b := by
  split at accepted
  · obtain ⟨_, -, later⟩ := bind_ok_iff.mp accepted
    exact later
  · exact accepted

-- A check that passes where it is made has no say in the result.
theorem result_guarded {c : Prop} [Decidable c] {x : Outcome ε Unit} (passed : x.result = .ok ())
    (f : Unit → Outcome ε β) : (if c then x >>= f else f ()).result = (f ()).result := by
  split
  · rw [bind_of_ok passed]
  · rfl

theorem mapError_ok_iff {x : Outcome ε α} {f : ε → δ} :
    (x.mapError f).result = .ok a ↔ x.result = .ok a := by
  unfold mapError
  cases x.result with
  | error e => simp [Except.mapError]
  | ok b => simp [Except.mapError]

theorem mapM_fails_iff {f : α → Outcome ε β} {items : List α} :
    (items.mapM f).Fails ↔ ∃ a ∈ items, (f a).Fails := by
  induction items with
  | nil => simp
  | cons first rest ih =>
    rw [List.mapM_cons, bind_fails_iff]
    have after : ∀ b : β, (rest.mapM f >>= fun bs => pure (b :: bs)).Fails ↔ ∃ a ∈ rest, (f a).Fails := by
      intro b
      rw [bind_fails_iff_left fun _ => pure_not_fails _, ih]
    simp only [after, List.mem_cons, exists_eq_or_imp]
    rcases fails_or_ok (f first) with failed | ⟨b, accepted⟩
    · simp only [failed, true_or]
    · simp [not_fails_of_ok accepted, accepted]

-- An error of a whole list is the error of one of its members.
theorem error_of_mapM {f : α → Outcome ε β} {items : List α} (failed : (items.mapM f).result = .error e) :
    ∃ a ∈ items, (f a).result = .error e := by
  induction items with
  | nil => cases failed
  | cons first rest ih =>
    rw [List.mapM_cons, bind_error_iff] at failed
    rcases failed with here | ⟨b, -, later⟩
    · exact ⟨first, List.mem_cons_self, here⟩
    · rw [bind_error_iff] at later
      rcases later with deeper | ⟨bs, -, never⟩
      · obtain ⟨a, member, told⟩ := ih deeper
        exact ⟨a, List.mem_cons_of_mem _ member, told⟩
      · cases never

theorem mapM_of_forall {f : α → Outcome ε β} {R : α → β → Prop} {items : List α}
    (each : ∀ a ∈ items, ∃ b, f a = pure b ∧ R a b) :
    ∃ bs, items.mapM f = pure bs ∧ List.Forall₂ R items bs := by
  induction items with
  | nil => exact ⟨[], rfl, .nil⟩
  | cons first rest ih =>
    obtain ⟨⟨b, made, related⟩, others⟩ := List.forall_mem_cons.mp each
    obtain ⟨bs, tail, all⟩ := ih others
    exact ⟨b :: bs, by rw [List.mapM_cons, made, tail, pure_bind, pure_bind], .cons related all⟩

theorem forall₂_of_mapM {f : α → Outcome ε β} {items : List α} (made : (items.mapM f).result = .ok bs) :
    List.Forall₂ (fun a b => (f a).result = .ok b) items bs := by
  induction items generalizing bs with
  | nil =>
    cases made
    exact .nil
  | cons first rest ih =>
    rw [List.mapM_cons] at made
    obtain ⟨b, here, made⟩ := bind_ok_iff.mp made
    obtain ⟨others, tail, made⟩ := bind_ok_iff.mp made
    cases made
    exact .cons here (ih tail)

theorem map_ok (f : α → β) (a : α) (warnings : List Warning) :
    f <$> (⟨.ok a, warnings⟩ : Outcome ε α) = ⟨.ok (f a), warnings⟩ := by
  rw [map_eq_pure_bind, bind_of_ok rfl, warnings_pure, List.append_nil]
  rfl

theorem ofExcept_ok_bind (a : α) (f : α → Outcome ε β) : (ofExcept (.ok a) >>= f : Outcome ε β) = f a := rfl

-- What a whole list gives is given by its members.
theorem exists_of_mapM {f : α → Outcome ε β} {items : List α} (made : (items.mapM f).result = .ok bs) :
    ∀ b ∈ bs, ∃ a ∈ items, (f a).result = .ok b := by
  have related := forall₂_of_mapM made
  clear made
  induction related with
  | nil => exact fun _ member => absurd member List.not_mem_nil
  | cons here _ ih =>
    intro b member
    rcases List.mem_cons.mp member with rfl | later
    · exact ⟨_, List.mem_cons_self, here⟩
    · obtain ⟨a, inside, given⟩ := ih b later
      exact ⟨a, List.mem_cons_of_mem _ inside, given⟩

end ContainerRecipe.Outcome
