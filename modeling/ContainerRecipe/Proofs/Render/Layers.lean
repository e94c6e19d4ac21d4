import ContainerRecipe.Proofs.Instruction.Pieces
import ContainerRecipe.Proofs.Render.Dockerfile
import ContainerRecipe.Proofs.Render.Merging
import Mathlib.Algebra.Ring.Nat

namespace ContainerRecipe

theorem length_eraseDups_le {α : Type} [BEq α] (as : List α) : as.eraseDups.length ≤ as.length := by
  induction as using firstSeen_induction with
  | nil => exact Nat.le_refl _
  | cons a as ih =>
    rw [List.eraseDups_cons, List.length_cons, List.length_cons]
    exact Nat.succ_le_succ (ih.trans (List.length_filter_le _ _))

theorem eraseDups_eq_nil_iff {α : Type} [BEq α] [LawfulBEq α] {as : List α} :
    as.eraseDups = [] ↔ as = [] := by
  simp only [List.eq_nil_iff_forall_not_mem, List.mem_eraseDups]

namespace Bindings

theorem length_insertEntry_le (name value : String) (entries : List (String × String)) :
    (insertEntry name value entries).length ≤ entries.length + 1 := by
  induction entries with
  | nil => exact Nat.le_refl _
  | cons first rest ih =>
    unfold insertEntry
    split
    · exact Nat.le_refl _
    · split
      · exact Nat.le_succ _
      · exact Nat.succ_le_succ ih

theorem length_insertAll_le (b : Bindings) (entries : List (String × String)) :
    (b.insertAll entries).entries.length ≤ b.entries.length + entries.length := by
  induction entries generalizing b with
  | nil => exact Nat.le_refl _
  | cons first rest ih =>
    have step := length_insertEntry_le first.1 first.2 b.entries
    have all := ih (b.insert first.1 first.2)
    rw [entries_insert] at all
    rw [List.length_cons]
    refine all.trans ?_
    omega

theorem length_foldl_union_le (b : Bindings) (bs : List Bindings) :
    (bs.foldl union b).entries.length ≤ b.entries.length + (bs.map fun b => b.entries.length).sum := by
  induction bs generalizing b with
  | nil => exact Nat.le_refl _
  | cons first rest ih =>
    have step : (b.union first).entries.length ≤ b.entries.length + first.entries.length :=
      length_insertAll_le b first.entries
    have all := ih (b.union first)
    rw [List.foldl_cons, List.map_cons, List.sum_cons]
    omega

-- There are at most as many names in a union as there are in its parts.
theorem length_unionAll_le (bs : List Bindings) :
    (unionAll bs).entries.length ≤ (bs.map fun b => b.entries.length).sum := by
  have all := length_foldl_union_le ∅ bs
  rwa [entries_empty, List.length_nil, Nat.zero_add] at all

theorem isEmpty_iff_get? (b : Bindings) : b.isEmpty = true ↔ ∀ name, b.get? name = none := by
  constructor
  · intro empty name
    rw [get?, List.isEmpty_iff.mp empty, List.lookup_nil]
  · intro free
    refine List.isEmpty_iff.mpr (List.eq_nil_iff_forall_not_mem.mpr ?_)
    rintro ⟨name, value⟩ member
    have bound := (mem_iff b).mp member
    rw [free name] at bound
    cases bound

theorem isEmpty_unionAll_iff (bs : List Bindings) :
    (unionAll bs).isEmpty = true ↔ ∀ b ∈ bs, b.isEmpty = true := by
  simp only [isEmpty_iff_get?, get?_unionAll, List.getLast?_eq_none_iff, List.filterMap_eq_nil_iff]
  exact ⟨fun free b member name => free name b member, fun free name b member => free b member name⟩

end Bindings

namespace Dockerfile

open Instruction

def layersOf (ps : List Instruction) : Nat := (ps.map layers).sum

-- The kinds that are written as one instruction if they hold something.
def Unary : Instruction → Prop
  | .shell _ | .environment _ | .labels _ | .runscript _ => True
  | _ => False

section

variable {run : List Instruction} {p : Instruction}

theorem layers_le_one (unary : Unary p) : layers p ≤ 1 := by
  cases p with
  | shell | environment | labels | runscript =>
    simp only [layers]
    split <;> omega
  | _ => cases unary

theorem layersOf_eq_zero_iff : layersOf run = 0 ↔ ∀ q ∈ run, layers q = 0 := by
  unfold layersOf
  rw [List.sum_eq_zero_iff_forall_eq_nat]
  simp only [List.forall_mem_map]

theorem layersOf_map {β : Type} (wrap : β → Instruction) (bs : List β) :
    layersOf (bs.map wrap) = (bs.map fun b => layers (wrap b)).sum := by
  rw [layersOf, List.map_map]
  rfl

theorem unary_of_merged (merged : Merged run p) {q : Instruction} (member : q ∈ run) (unary : Unary q) :
    Unary p := by
  cases merged with
  | alone =>
    cases List.mem_singleton.mp member
    exact unary
  | shells | environments | labels | runscripts => trivial
  | copies | comments | arguments =>
    obtain ⟨b, -, rfl⟩ := List.mem_map.mp member
    cases unary

-- A run of such a kind holds something as soon as one of its members does.
theorem layers_eq_zero_iff (merged : Merged run p) (unary : Unary p) :
    layers p = 0 ↔ ∀ q ∈ run, layers q = 0 := by
  cases merged with
  | alone => simp
  | shells several options commands => simp [layers, Shell.effective, commands, List.filter_flatMap]
  | environments several options bindings => simp [layers, bindings, Bindings.isEmpty_unionAll_iff]
  | labels several options bindings => simp [layers, bindings, Bindings.isEmpty_unionAll_iff]
  | runscripts several options commands => simp [layers, commands, eraseDups_eq_nil_iff]
  | copies | comments | arguments => cases unary

theorem layers_of_unary (merged : Merged run p) (unary : Unary p) : layers p = min 1 (layersOf run) := by
  have most := layers_le_one unary
  have none := (layers_eq_zero_iff merged unary).trans layersOf_eq_zero_iff.symm
  omega

theorem layers_le_of_merged (merged : Merged run p) : layers p ≤ layersOf run := by
  by_cases unary : Unary p
  · rw [layers_of_unary merged unary]
    exact Nat.min_le_right _ _
  · cases merged with
    | alone => simp [layersOf]
    | @copies cs c several options entries =>
      have kept : c.effective = (cs.flatMap Copy.effective).eraseDups := by
        rw [Copy.effective, entries, ← eraseDups_filter, List.filter_flatMap]
        rfl
      have fewer := length_eraseDups_le (cs.flatMap Copy.effective)
      rw [List.length_flatMap] at fewer
      rw [layersOf_map, layers, kept]
      exact fewer
    | comments => exact Nat.zero_le _
    | @arguments as a several bindings =>
      have fewer := Bindings.length_unionAll_le (as.map (·.bindings))
      rw [List.map_map] at fewer
      rw [layersOf_map, layers, bindings]
      exact fewer
    | shells | environments | labels | runscripts => exact absurd trivial unary

theorem layersOf_le_of_merged {parts : List (List Instruction)} {outputs : List Instruction}
    (merged : List.Forall₂ Merged parts outputs) : layersOf outputs ≤ layersOf parts.flatten := by
  induction merged with
  | nil => exact Nat.le_refl _
  | cons here _ ih =>
    have first := layers_le_of_merged here
    simp only [layersOf, List.flatten_cons, List.map_append, List.sum_append, List.map_cons,
      List.sum_cons] at first ih ⊢
    exact Nat.add_le_add first ih

end

-- A stage that is merged has at most as many layers as it has without merging; so has each of its runs,
-- and of a kind that is written as one instruction a run has one exactly if a member has one.
theorem merging_adds_no_layers (s : Stage) :
    (∃ outputs, s.document false = pure s.instructions ∧ s.document true = pure outputs ∧
      layersOf outputs ≤ layersOf s.instructions ∧
      List.Forall₂ (fun run p => layers p ≤ layersOf run ∧
        ∀ q ∈ run, Unary q → layers p = min 1 (layersOf run)) (runs s.instructions) outputs) ∧
    ∀ (p : Instruction) (t : String), ¬ p.Inserted → p.kind ≠ "comment" →
      (write p).result = .ok t → Instructs (keyword p) (layers p) t := by
  obtain ⟨outputs, made, merged⟩ := s.document_merged
  refine ⟨⟨outputs, rfl, made, ?_, ?_⟩, fun p t composed other => write_instructs composed other⟩
  · have fewer := layersOf_le_of_merged merged
    rwa [runs_flatten] at fewer
  · refine merged.imp fun run p becomes => ⟨layers_le_of_merged becomes, fun q member unary => ?_⟩
    exact layers_of_unary becomes (unary_of_merged becomes member unary)

end Dockerfile

end ContainerRecipe
