import ContainerRecipe.Instruction.Merge
import ContainerRecipe.Proofs.Bindings

namespace ContainerRecipe

-- The last value that the members of a list give is given by one behind which no other gives any.
theorem getLast?_filterMap_eq_some_iff {α β : Type} {f : α → Option β} {as : List α} {b : β} :
    (as.filterMap f).getLast? = some b ↔
      ∃ before a after, as = before ++ a :: after ∧ f a = some b ∧ ∀ x ∈ after, f x = none := by
  rw [List.getLast?_filterMap, List.findSome?_eq_some_iff]
  constructor
  · rintro ⟨after, a, before, split, given, none⟩
    refine ⟨before.reverse, a, after.reverse, ?_, given, ?_⟩
    · rw [← List.reverse_reverse as, split]
      simp
    · exact fun x member => none x (List.mem_reverse.mp member)
  · rintro ⟨before, a, after, rfl, given, none⟩
    refine ⟨after.reverse, a, before.reverse, by simp, given, ?_⟩
    exact fun x member => none x (List.mem_reverse.mp member)

namespace Bindings

theorem get?_foldl_union (b : Bindings) (bs : List Bindings) (name : String) :
    (bs.foldl union b).get? name = (bs.filterMap (·.get? name)).getLast?.or (b.get? name) := by
  induction bs generalizing b with
  | nil => rfl
  | cons first rest ih =>
    rw [List.foldl_cons, ih, get?_union]
    cases given : first.get? name with
    | none => simp [given]
    | some value => simp [given, List.getLast?_cons, Option.or_of_isSome]

-- The last value that is given for a name stays.
theorem get?_unionAll (bs : List Bindings) (name : String) :
    (unionAll bs).get? name = (bs.filterMap (·.get? name)).getLast? := by
  rw [unionAll, get?_foldl_union, get?_empty, Option.or_none]

theorem get?_unionAll_map (f : α → Bindings) (as : List α) (name : String) :
    (unionAll (as.map f)).get? name = (as.filterMap fun a => (f a).get? name).getLast? := by
  rw [get?_unionAll, List.filterMap_map]
  rfl

theorem unionAll_append (as bs : List Bindings) : unionAll (as ++ bs) = (unionAll as).union (unionAll bs) := by
  apply eq_of_get?
  intro name
  rw [get?_union, get?_unionAll, get?_unionAll, get?_unionAll, List.filterMap_append, List.getLast?_append]

theorem unionAll_singleton (b : Bindings) : unionAll [b] = b := by
  apply eq_of_get?
  intro name
  simp [unionAll, get?_union]

theorem unionAll_pair (a b : Bindings) : unionAll [a, b] = a.union b := by
  have pieces := unionAll_append [a] [b]
  rwa [unionAll_singleton, unionAll_singleton] at pieces

-- Bindings that give a name the same value where both of them bind it.
def Agree (a b : Bindings) : Prop :=
  ∀ name v w, a.get? name = some v → b.get? name = some w → v = w

-- Among bindings that agree, any one that binds a name tells its value.
theorem get?_unionAll_of_agree {bs : List Bindings} (agree : ∀ a ∈ bs, ∀ b ∈ bs, a.Agree b) :
    (unionAll bs).get? name = some value ↔ ∃ b ∈ bs, b.get? name = some value := by
  rw [get?_unionAll]
  constructor
  · intro last
    exact List.mem_filterMap.mp (List.mem_of_getLast? last)
  · rintro ⟨b, member, given⟩
    have nonempty : bs.filterMap (·.get? name) ≠ [] :=
      List.ne_nil_of_mem (List.mem_filterMap.mpr ⟨b, member, given⟩)
    obtain ⟨a, found, last⟩ := List.mem_filterMap.mp (List.getLast_mem nonempty)
    rw [List.getLast?_eq_some_getLast nonempty, agree a found b member name _ _ last given]

theorem unionAll_perm {as bs : List Bindings} (agree : ∀ a ∈ as, ∀ b ∈ as, a.Agree b) (same : as.Perm bs) :
    unionAll as = unionAll bs := by
  have agreeToo : ∀ a ∈ bs, ∀ b ∈ bs, a.Agree b := fun a first b second =>
    agree a (same.mem_iff.mpr first) b (same.mem_iff.mpr second)
  apply eq_of_get?
  intro name
  apply Option.ext
  intro value
  rw [get?_unionAll_of_agree agree, get?_unionAll_of_agree agreeToo]
  simp only [same.mem_iff]

end Bindings

end ContainerRecipe
