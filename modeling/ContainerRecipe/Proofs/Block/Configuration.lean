import ContainerRecipe.Block
import ContainerRecipe.Proofs.Instruction.RoundTrip
import ContainerRecipe.Proofs.Toolchain

namespace ContainerRecipe

open Codec ContainerRecipe.Field

theorem Codec.texts_present : texts.Present := fun _ wrote => by cases wrote
theorem Codec.flag_present : flag.Present := fun _ wrote => by cases wrote

theorem optional_text_robust : Codec.text.nullable.Robust := nullable_robust text_robust text_present
theorem optional_texts_robust : Codec.texts.nullable.Robust := nullable_robust texts_robust texts_present
theorem optional_flag_robust : Codec.flag.nullable.Robust := nullable_robust flag_robust flag_present

theorem PackageRequest.layout_sound : layout.Sound where
  named := by decide
  lawful := by
    simp only [layout, List.forall_mem_cons]
    exact ⟨default_lawful texts_robust fun _ _ => rfl, default_lawful optional_texts_robust fun _ _ => rfl,
      default_lawful optional_texts_robust fun _ _ => rfl, default_lawful texts_robust fun _ _ => rfl,
      default_lawful texts_robust fun _ _ => rfl, default_lawful texts_robust fun _ _ => rfl,
      default_lawful texts_robust fun _ _ => rfl, default_lawful texts_robust fun _ _ => rfl,
      default_lawful flag_robust fun _ _ => rfl, default_lawful flag_robust fun _ _ => rfl,
      default_lawful flag_robust fun _ _ => rfl, default_lawful optional_flag_robust fun _ _ => rfl, by simp⟩
  spares := by simp [layout, default_write]
  determined := by
    rintro ⟨⟩ ⟨⟩ same
    simpa [layout, default_told texts_robust, default_told optional_texts_robust, default_told flag_robust,
      default_told optional_flag_robust] using same

theorem Gnu.layout_sound : layout.Sound where
  named := by decide
  lawful := by
    simp only [layout, List.forall_mem_cons]
    exact ⟨default_lawful flag_robust fun _ _ => rfl, default_lawful flag_robust fun _ _ => rfl,
      default_lawful flag_robust fun _ _ => rfl, default_lawful optional_text_robust fun _ _ => rfl,
      default_lawful flag_robust fun _ _ => rfl, by simp⟩
  spares := by simp [layout, default_write]
  determined := by
    rintro ⟨⟩ ⟨⟩ same
    simpa [layout, default_told flag_robust, default_told optional_text_robust] using same

theorem Nvhpc.layout_sound : layout.Sound where
  named := by decide
  lawful := by
    simp only [layout, List.forall_mem_cons]
    exact ⟨default_lawful flag_robust fun _ _ => rfl, default_lawful text_robust fun _ _ => rfl,
      default_lawful flag_robust fun _ _ => rfl, default_lawful optional_text_robust fun _ _ => rfl,
      default_lawful text_robust fun _ _ => rfl, default_lawful flag_robust fun _ _ => rfl,
      default_lawful flag_robust fun _ _ => rfl, default_lawful flag_robust fun _ _ => rfl,
      default_lawful optional_text_robust fun _ _ => rfl, by simp⟩
  spares := by simp [layout, default_write]
  determined := by
    rintro ⟨⟩ ⟨⟩ same
    simpa [layout, default_told flag_robust, default_told text_robust, default_told optional_text_robust] using same

namespace Toolchain

-- Each variable has its own field, under the name that it has in an assignment.
theorem fields_eq : layout.fields = ToolVariable.all.map fun v =>
    .optional v.text .text (fun t => t.get? v) fun value t => t.put v value := rfl

theorem layout_sound : layout.Sound where
  named := by decide
  lawful := by
    rw [fields_eq]
    refine List.forall_mem_map.mpr fun v _ => ?_
    exact optional_lawful text_robust text_present (fun value t => t.get?_put v value) (get?_empty v)
  spares := by
    rw [fields_eq]
    refine List.forall_mem_map.mpr fun v _ => List.forall_mem_map.mpr fun w _ apart => ?_
    refine optional_spares_iff.mpr fun d value _ t => ?_
    have other : w ≠ v := fun same => apart (congrArg ToolVariable.text same.symm)
    exact congrArg (Option.map text.write) (t.get?_put_of_ne value other)
  determined := by
    rw [fields_eq]
    intro t u same
    refine eq_of_get? fun v => ?_
    exact (optional_told text_robust).mp (same _ (List.mem_map_of_mem (ToolVariable.mem_all v)))

-- The fields are the variables that are set, under their names and in their order.
theorem writeFields_eq (t : Toolchain) :
    layout.writeFields t = t.settings.map fun (name, value) => (name, .text value) := by
  unfold Layout.writeFields settings
  rw [fields_eq, List.filterMap_map, List.map_filterMap]
  refine List.filterMap_congr fun v _ => ?_
  show ((t.get? v).map text.write).map (v.text, ·) = ((t.get? v).map (v.text, ·)).map _
  cases t.get? v <;> rfl

end Toolchain

theorem Autotools.layout_sound : layout.Sound where
  named := by decide
  lawful := by
    simp only [layout, List.forall_mem_cons]
    exact ⟨default_lawful optional_text_robust fun _ _ => rfl, default_lawful optional_text_robust fun _ _ => rfl,
      default_lawful text_robust fun _ _ => rfl, default_lawful optional_text_robust fun _ _ => rfl,
      default_lawful texts_robust fun _ _ => rfl, default_lawful texts_robust fun _ _ => rfl,
      default_lawful texts_robust fun _ _ => rfl, default_lawful flag_robust fun _ _ => rfl,
      default_lawful flag_robust fun _ _ => rfl, default_lawful flag_robust fun _ _ => rfl,
      default_lawful flag_robust fun _ _ => rfl, default_lawful flag_robust fun _ _ => rfl,
      default_lawful Toolchain.layout_sound.robust fun _ _ => rfl, by simp⟩
  spares := by simp [layout, default_write]
  determined := by
    rintro ⟨⟩ ⟨⟩ same
    simpa [layout, default_told optional_text_robust, default_told text_robust,
      default_told (list_robust text_robust), default_told flag_robust, default_told Toolchain.layout_sound.robust] using same

end ContainerRecipe
