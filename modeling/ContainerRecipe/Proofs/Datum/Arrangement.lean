import ContainerRecipe.Datum.Codec
import ContainerRecipe.Proofs.Bindings
import Mathlib.Data.List.Perm.Subperm

namespace ContainerRecipe

mutual

-- One datum is another one with the fields of its records in some other order.
inductive Datum.Rearranged : Datum → Datum → Prop where
  | same : Datum.Rearranged d d
  | list : Datum.RearrangedItems ds es → Datum.Rearranged (.list ds) (.list es)
  | record : Datum.RearrangedFields fs gs → Datum.Rearranged (.record fs) (.record gs)

inductive Datum.RearrangedItems : List Datum → List Datum → Prop where
  | nil : Datum.RearrangedItems [] []
  | cons : Datum.Rearranged d e → Datum.RearrangedItems ds es → Datum.RearrangedItems (d :: ds) (e :: es)

-- The first field may stand anywhere among the others.
inductive Datum.RearrangedFields : List (String × Datum) → List (String × Datum) → Prop where
  | nil : Datum.RearrangedFields [] []
  | cons : Datum.Rearranged d e → Datum.RearrangedFields fs (before ++ after) →
      Datum.RearrangedFields ((name, d) :: fs) (before ++ (name, e) :: after)

end

namespace Datum.RearrangedFields

theorem refl (fs : List (String × Datum)) : RearrangedFields fs fs := by
  induction fs with
  | nil => exact .nil
  | cons field fs ih =>
    obtain ⟨name, d⟩ := field
    have front : RearrangedFields fs ([] ++ fs) := ih
    exact .cons .same front

theorem names (arranged : RearrangedFields fs gs) : (fs.map Prod.fst).Perm (gs.map Prod.fst) := by
  induction fs generalizing gs with
  | nil => cases arranged; exact .nil
  | cons field fs ih =>
    cases arranged with
    | cons datum rest =>
      simp only [List.map_cons, List.map_append]
      refine (List.Perm.cons _ (ih rest)).trans ?_
      rw [List.map_append]
      exact List.perm_middle.symm

-- Each field is one of the others, arranged anew.
theorem source (arranged : RearrangedFields fs gs) (member : (name, e) ∈ gs) :
    ∃ d, (name, d) ∈ fs ∧ d.Rearranged e := by
  induction fs generalizing gs with
  | nil => cases arranged; cases member
  | cons field fs ih =>
    cases arranged with
    | cons datum rest =>
      rcases List.mem_append.mp member with front | back
      · obtain ⟨d, found, like⟩ := ih rest (List.mem_append_left _ front)
        exact ⟨d, List.mem_cons_of_mem _ found, like⟩
      · rcases List.mem_cons.mp back with equal | back
        · cases equal
          exact ⟨_, List.mem_cons_self, datum⟩
        · obtain ⟨d, found, like⟩ := ih rest (List.mem_append_right _ back)
          exact ⟨d, List.mem_cons_of_mem _ found, like⟩

-- A tag of its own is found wherever it stands, and without it the other fields are left.
theorem tagged (arranged : RearrangedFields ((tag, .text kind) :: fs) gs)
    (free : tag ∉ fs.map Prod.fst) :
    gs.lookup tag = some (.text kind) ∧ RearrangedFields fs (gs.filter (·.1 != tag)) := by
  cases arranged with
  | @cons _ e _ before after _ datum rest =>
    cases datum
    have absent : ∀ field ∈ before ++ after, field.1 ≠ tag := by
      intro field member same
      exact free (rest.names.mem_iff.mpr (same ▸ List.mem_map_of_mem member))
    have first : before.lookup tag = none := by
      rw [List.lookup_eq_none_iff]
      intro field member
      simpa using Ne.symm (absent field (List.mem_append_left _ member))
    constructor
    · rw [List.lookup_append, first, List.lookup_cons_self]
      rfl
    · have others : (before ++ after).filter (·.1 != tag) = before ++ after := by
        rw [List.filter_eq_self]
        intro field member
        simpa using absent field member
      rw [List.filter_append] at others ⊢
      simpa [others] using rest

end Datum.RearrangedFields

namespace Codec

-- What is written is read back, however its fields are arranged.
def Robust (c : Codec α) : Prop := ∀ a d, (c.write a).Rearranged d → c.read d = .ok a

-- Nothing that is written looks as if it were unset.
def Present (c : Codec α) : Prop := ∀ a, c.write a ≠ .null

theorem Robust.faithful {c : Codec α} (robust : c.Robust) : c.Faithful := fun a => robust a _ .same

theorem Robust.injective {c : Codec α} (robust : c.Robust) : Function.Injective c.write := by
  intro a b same
  have first := robust.faithful a
  rw [same, robust.faithful b] at first
  exact (Except.ok.inj first).symm

theorem text_robust : text.Robust := by
  intro s d arranged
  cases arranged
  rfl

theorem flag_robust : flag.Robust := by
  intro b d arranged
  cases arranged
  rfl

theorem word_robust {print : α → String} {parse : String → Except NameError α}
    (told : ∀ a, parse (print a) = .ok a) : (word print parse).Robust := by
  intro a d arranged
  cases arranged
  simp [word, text, told, bind, Except.bind]

theorem items_read {c : Codec α} (robust : c.Robust) (items : List α) (ds : List Datum)
    (arranged : Datum.RearrangedItems (items.map c.write) ds) : ds.mapM c.read = .ok items := by
  induction items generalizing ds with
  | nil => cases arranged; rfl
  | cons a items ih =>
    cases arranged with
    | cons first rest =>
      rw [List.mapM_cons, robust a _ first, ih _ rest]
      rfl

theorem items_refl (ds : List Datum) : Datum.RearrangedItems ds ds := by
  induction ds with
  | nil => exact .nil
  | cons d ds ih => exact .cons .same ih

theorem list_robust {c : Codec α} (robust : c.Robust) : c.list.Robust := by
  intro items d arranged
  cases arranged with
  | same => exact items_read robust items _ (items_refl _)
  | list items' => exact items_read robust items _ items'

theorem entries_read (gs : List (String × Datum))
    (texts : ∀ name d, (name, d) ∈ gs → ∃ s, d = .text s) :
    ∃ entries : List (String × String), gs.mapM readEntry = .ok entries ∧
      gs = entries.map fun (name, s) => (name, .text s) := by
  induction gs with
  | nil => exact ⟨[], rfl, rfl⟩
  | cons field gs ih =>
    obtain ⟨name, d⟩ := field
    obtain ⟨s, rfl⟩ := texts name d (by simp)
    obtain ⟨entries, reads, rfl⟩ := ih fun name d member => texts name d (by simp [member])
    refine ⟨(name, s) :: entries, ?_, rfl⟩
    rw [List.mapM_cons, reads]
    rfl

theorem bindings_read (b : Bindings) {gs : List (String × Datum)}
    (arranged : Datum.RearrangedFields (b.entries.map fun (name, value) => (name, .text value)) gs) :
    bindings.read (.record gs) = .ok b := by
  have texts : ∀ name e, (name, e) ∈ gs → ∃ s, e = .text s ∧ (name, s) ∈ b.entries := by
    intro name e member
    obtain ⟨d, found, like⟩ := arranged.source member
    obtain ⟨⟨_, s⟩, entry, equal⟩ := List.mem_map.mp found
    cases equal
    cases like
    exact ⟨s, rfl, entry⟩
  obtain ⟨entries, reads, rfl⟩ := entries_read gs fun name e member =>
    (texts name e member).imp fun _ => And.left
  have names : (b.entries.map Prod.fst).Perm (entries.map Prod.fst) := by
    simpa [List.map_map, Function.comp_def] using arranged.names
  have once : entries.Nodup := (names.nodup b.names_nodup).of_map
  have part : entries ⊆ b.entries := by
    rintro ⟨name, s⟩ member
    obtain ⟨_, equal, entry⟩ := texts name (.text s) (List.mem_map.mpr ⟨_, member, rfl⟩)
    cases equal
    exact entry
  have whole : b.entries.length ≤ entries.length := by
    simpa using Nat.le_of_eq names.length_eq
  have same := (List.subperm_of_subset once part).perm_of_length_le whole
  simp only [bindings, reads, Except.map, Bindings.ofList_perm same]

theorem nullable_robust {c : Codec α} (robust : c.Robust) (present : c.Present) : c.nullable.Robust := by
  intro held d arranged
  cases held with
  | none =>
    cases arranged
    rfl
  | some a =>
    have given : d ≠ .null := by
      rintro rfl
      cases written : c.write a with
      | null => exact present a written
      | _ =>
        simp only [nullable, written] at arranged
        cases arranged
    cases d with
    | null => exact absurd rfl given
    | _ => simp only [nullable, robust a _ arranged, Except.map]

theorem bindings_robust : bindings.Robust := by
  intro b d arranged
  cases arranged with
  | same => exact bindings_read b (Datum.RearrangedFields.refl _)
  | record fields => exact bindings_read b fields

end Codec

end ContainerRecipe
