import ContainerRecipe.Bindings
import Mathlib.Data.List.Nodup

namespace ContainerRecipe

theorem lookup_pair {α : Type} (name k : String) (v : α) (rest : List (String × α)) :
    ((name, v) :: rest).lookup k = if k = name then some v else rest.lookup k := by
  by_cases equal : k = name
  · simp [equal]
  · have different : (k == name) = false := by simpa using equal
    rw [List.lookup_cons, different, if_neg equal]

theorem lookup_insertEntry (name value k : String) (entries : List (String × String)) :
    (insertEntry name value entries).lookup k =
      if k = name then some value else entries.lookup k := by
  induction entries with
  | nil => simp [insertEntry]
  | cons first rest ih =>
    obtain ⟨other, old⟩ := first
    simp only [insertEntry]
    split
    · rw [lookup_pair]
    · split
      · rename_i same
        subst same
        simp only [lookup_pair]
        split <;> rfl
      · rename_i notSame
        simp only [lookup_pair, ih]
        by_cases equal : k = other
        · subst equal
          simp [Ne.symm notSame]
        · simp [equal]

-- What is looked up among names that are all different is what stands there.
theorem lookup_eq_some_of_mem {α : Type} {k : String} {v : α} {entries : List (String × α)}
    (once : (entries.map Prod.fst).Nodup) (member : (k, v) ∈ entries) : entries.lookup k = some v := by
  induction entries with
  | nil => cases member
  | cons first rest ih =>
    obtain ⟨name, other⟩ := first
    simp only [List.map_cons, List.nodup_cons] at once
    rw [lookup_pair]
    rcases List.mem_cons.mp member with equal | later
    · cases equal
      rw [if_pos rfl]
    · have different : k ≠ name := by
        rintro rfl
        exact once.1 (List.mem_map_of_mem (f := Prod.fst) later)
      rw [if_neg different, ih once.2 later]

theorem mem_of_lookup {α : Type} {k : String} {v : α} {entries : List (String × α)}
    (found : entries.lookup k = some v) :
    (k, v) ∈ entries := by
  obtain ⟨before, after, rfl, -⟩ := List.lookup_eq_some_iff.mp found
  simp

theorem lookup_perm {α : Type} {xs ys : List (String × α)} (same : xs.Perm ys)
    (once : (xs.map Prod.fst).Nodup) (k : String) : xs.lookup k = ys.lookup k := by
  have onceToo : (ys.map Prod.fst).Nodup := (same.map Prod.fst).nodup once
  cases found : ys.lookup k with
  | none =>
    rw [List.lookup_eq_none_iff] at found ⊢
    exact fun entry member => found entry (same.mem_iff.mp member)
  | some v => exact lookup_eq_some_of_mem once (same.mem_iff.mpr (mem_of_lookup found))

namespace Bindings

theorem names_nodup (b : Bindings) : (b.entries.map Prod.fst).Nodup := by
  rw [List.Nodup, List.pairwise_map]
  refine b.ordered.imp ?_
  intro x y before same
  rw [same] at before
  exact String.lt_irrefl _ before

theorem mem_iff (b : Bindings) : (k, v) ∈ b.entries ↔ b.get? k = some v :=
  ⟨lookup_eq_some_of_mem b.names_nodup, mem_of_lookup⟩

theorem eq_of_get? {a b : Bindings} (same : ∀ k, a.get? k = b.get? k) : a = b := by
  have members : ∀ entry, entry ∈ a.entries ↔ entry ∈ b.entries := by
    rintro ⟨k, v⟩
    rw [mem_iff, mem_iff, same]
  have perm : a.entries.Perm b.entries :=
    (List.perm_ext_iff_of_nodup a.names_nodup.of_map b.names_nodup.of_map).mpr members
  refine ext (perm.eq_of_pairwise ?_ a.ordered b.ordered)
  intro x y _ _ before after
  exact absurd (String.lt_trans before after) (String.lt_irrefl _)

@[simp] theorem get?_empty (k : String) : (∅ : Bindings).get? k = none := rfl

@[simp] theorem get?_insert (b : Bindings) (name value k : String) :
    (b.insert name value).get? k = if k = name then some value else b.get? k :=
  lookup_insertEntry name value k b.entries

-- The last binding of a name stays.
theorem get?_insertAll (b : Bindings) (entries : List (String × String)) (k : String) :
    (b.insertAll entries).get? k = (entries.reverse.lookup k).or (b.get? k) := by
  induction entries generalizing b with
  | nil => rfl
  | cons first rest ih =>
    obtain ⟨name, value⟩ := first
    have step : b.insertAll ((name, value) :: rest) = (b.insert name value).insertAll rest := rfl
    rw [step, ih, get?_insert, List.reverse_cons, List.lookup_append, Option.or_assoc, lookup_pair]
    split <;> rfl

theorem get?_ofList {entries : List (String × String)} (once : (entries.map Prod.fst).Nodup) (k : String) :
    (ofList entries).get? k = entries.lookup k := by
  have reversed : (entries.reverse.map Prod.fst).Nodup := (entries.reverse_perm.map Prod.fst).nodup_iff.mpr once
  rw [ofList, get?_insertAll, get?_empty, Option.or_none, lookup_perm entries.reverse_perm reversed]

theorem mem_ofList {name value : String} {entries : List (String × String)}
    (member : (name, value) ∈ (ofList entries).entries) : (name, value) ∈ entries := by
  rw [mem_iff, ofList, get?_insertAll, get?_empty, Option.or_none] at member
  exact List.mem_reverse.mp (mem_of_lookup member)

theorem get?_union (a b : Bindings) (k : String) : (a.union b).get? k = (b.get? k).or (a.get? k) := by
  unfold union
  rw [get?_insertAll, lookup_perm (List.reverse_perm _) (by
    rw [List.map_reverse, List.nodup_reverse]; exact b.names_nodup)]
  rfl

theorem entries_single (name value : String) : (ofList [(name, value)]).entries = [(name, value)] := rfl

theorem get?_single (name value k : String) :
    (ofList [(name, value)]).get? k = if k = name then some value else none := by
  simp [ofList, insertAll]

theorem ofList_perm {b : Bindings} {entries : List (String × String)} (same : entries.Perm b.entries) :
    ofList entries = b := by
  have once : (entries.map Prod.fst).Nodup := (same.symm.map _).nodup b.names_nodup
  exact eq_of_get? fun k => (get?_ofList once k).trans (lookup_perm same once k)

end Bindings

end ContainerRecipe
