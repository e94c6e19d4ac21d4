import ContainerRecipe.Instruction.Layout
import ContainerRecipe.Proofs.Datum.Record
import ContainerRecipe.Proofs.Platform.Naming

namespace ContainerRecipe

namespace Codec

theorem texts_robust : texts.Robust := list_robust text_robust
theorem release_robust : release.Robust := word_robust Release.parse_text
theorem architecture_robust : architecture.Robust := word_robust Architecture.parse_text
theorem text_present : text.Present := fun _ wrote => by cases wrote
theorem release_present : release.Present := fun _ wrote => by cases wrote
theorem architecture_present : architecture.Present := fun _ wrote => by cases wrote

end Codec

-- Values that are left out of a dump are the only ones of their kind.
theorem isEmpty_only (v w : List String) (left : v.isEmpty = true) (right : w.isEmpty = true) : v = w := by
  rw [List.isEmpty_iff.mp left, List.isEmpty_iff.mp right]

theorem id_only (v w : Bool) (left : id v = true) (right : id w = true) : v = w := by
  rw [show v = true from left, show w = true from right]

open Codec ContainerRecipe.Field

theorem BaseImage.layout_sound : layout.Sound where
  named := by decide
  lawful := by
    simp only [layout, List.forall_mem_cons]
    exact ⟨required_lawful text_robust fun _ _ => rfl,
      optional_lawful text_robust text_present (fun _ _ => rfl) rfl,
      optional_lawful release_robust release_present (fun _ _ => rfl) rfl,
      optional_lawful architecture_robust architecture_present (fun _ _ => rfl) rfl,
      default_lawful flag_robust fun _ _ => rfl, default_lawful text_robust fun _ _ => rfl, by simp⟩
  spares := by simp [layout, required_write, default_write, optional_write]
  determined := by
    rintro ⟨⟩ ⟨⟩ same
    simpa [layout, required_told text_robust, optional_told text_robust,
      optional_told release_robust, optional_told architecture_robust, default_told flag_robust,
      default_told text_robust] using same

theorem Shell.layout_sound : layout.Sound where
  named := by decide
  lawful := by
    simp only [layout, List.forall_mem_cons]
    exact ⟨required_lawful texts_robust fun _ _ => rfl, default_lawful flag_robust fun _ _ => rfl,
      optional_lawful text_robust text_present (fun _ _ => rfl) rfl, by simp⟩
  spares := by simp [layout, required_write, default_write, optional_write]
  determined := by
    rintro ⟨⟩ ⟨⟩ same
    simpa [layout, required_told texts_robust, default_told flag_robust, optional_told text_robust] using same

theorem CopyEntry.layout_sound : layout.Sound where
  named := by decide
  lawful := by
    simp only [layout, List.forall_mem_cons]
    exact ⟨required_lawful texts_robust fun _ _ => rfl, required_lawful text_robust fun _ _ => rfl,
      by simp⟩
  spares := by simp [layout, required_write]
  determined := by
    rintro ⟨⟩ ⟨⟩ same
    simpa [layout, required_told texts_robust, required_told text_robust] using same

theorem entries_robust : CopyEntry.layout.codec.list.Robust := list_robust CopyEntry.layout_sound.robust

theorem Copy.layout_sound : layout.Sound where
  named := by decide
  lawful := by
    simp only [layout, List.forall_mem_cons]
    exact ⟨required_lawful entries_robust fun _ _ => rfl,
      optional_lawful text_robust text_present (fun _ _ => rfl) rfl,
      optional_lawful text_robust text_present (fun _ _ => rfl) rfl,
      unusual_lawful texts_robust (fun _ _ => rfl) rfl,
      optional_lawful text_robust text_present (fun _ _ => rfl) rfl, by simp⟩
  spares := by simp [layout, required_write, unusual_write, optional_write]
  determined := by
    rintro ⟨⟩ ⟨⟩ same
    simpa [layout, required_told entries_robust, optional_told text_robust,
      unusual_told texts_robust isEmpty_only] using same

theorem Environment.layout_sound : layout.Sound where
  named := by decide
  lawful := by
    simp only [layout, List.forall_mem_cons]
    exact ⟨required_lawful bindings_robust fun _ _ => rfl,
      default_lawful flag_robust fun _ _ => rfl,
      optional_lawful text_robust text_present (fun _ _ => rfl) rfl, by simp⟩
  spares := by simp [layout, required_write, default_write, optional_write]
  determined := by
    rintro ⟨⟩ ⟨⟩ same
    simpa [layout, required_told bindings_robust, default_told flag_robust,
      optional_told text_robust] using same

theorem Labels.layout_sound : layout.Sound where
  named := by decide
  lawful := by
    simp only [layout, List.forall_mem_cons]
    exact ⟨required_lawful bindings_robust fun _ _ => rfl,
      optional_lawful text_robust text_present (fun _ _ => rfl) rfl, by simp⟩
  spares := by simp [layout, required_write, optional_write]
  determined := by
    rintro ⟨⟩ ⟨⟩ same
    simpa [layout, required_told bindings_robust, optional_told text_robust] using same

theorem Comment.layout_sound : layout.Sound where
  named := by decide
  lawful := by
    simp only [layout, List.forall_mem_cons]
    exact ⟨required_lawful text_robust fun _ _ => rfl,
      unusual_lawful flag_robust (fun _ _ => rfl) rfl,
      optional_lawful text_robust text_present (fun _ _ => rfl) rfl, by simp⟩
  spares := by simp [layout, required_write, unusual_write, optional_write]
  determined := by
    rintro ⟨⟩ ⟨⟩ same
    simpa [layout, required_told text_robust, unusual_told flag_robust id_only,
      optional_told text_robust] using same

theorem Verbatim.layout_sound : layout.Sound where
  named := by decide
  lawful := by
    simp only [layout, List.forall_mem_cons]
    exact ⟨optional_lawful text_robust text_present (fun _ _ => rfl) rfl,
      optional_lawful text_robust text_present (fun _ _ => rfl) rfl, by simp⟩
  spares := by simp [layout, optional_write]
  determined := by
    rintro ⟨⟩ ⟨⟩ same
    simpa [layout, optional_told text_robust] using same

theorem Workdir.layout_sound : layout.Sound where
  named := by decide
  lawful := by
    simp only [layout, List.forall_mem_cons]
    exact ⟨required_lawful text_robust fun _ _ => rfl,
      optional_lawful text_robust text_present (fun _ _ => rfl) rfl, by simp⟩
  spares := by simp [layout, required_write, optional_write]
  determined := by
    rintro ⟨⟩ ⟨⟩ same
    simpa [layout, required_told text_robust, optional_told text_robust] using same

theorem User.layout_sound : layout.Sound where
  named := by decide
  lawful := by
    simp only [layout, List.forall_mem_cons]
    exact ⟨required_lawful text_robust fun _ _ => rfl, by simp⟩
  spares := by simp [layout, required_write]
  determined := by
    rintro ⟨⟩ ⟨⟩ same
    simpa [layout, required_told text_robust] using same

theorem Arguments.layout_sound : layout.Sound where
  named := by decide
  lawful := by
    simp only [layout, List.forall_mem_cons]
    exact ⟨required_lawful bindings_robust fun _ _ => rfl, by simp⟩
  spares := by simp [layout, required_write]
  determined := by
    rintro ⟨⟩ ⟨⟩ same
    simpa [layout, required_told bindings_robust] using same

theorem Runscript.layout_sound : layout.Sound where
  named := by decide
  lawful := by
    simp only [layout, List.forall_mem_cons]
    exact ⟨required_lawful texts_robust fun _ _ => rfl,
      unusual_lawful flag_robust (fun _ _ => rfl) rfl,
      optional_lawful text_robust text_present (fun _ _ => rfl) rfl, by simp⟩
  spares := by simp [layout, required_write, unusual_write, optional_write]
  determined := by
    rintro ⟨⟩ ⟨⟩ same
    simpa [layout, required_told texts_robust, unusual_told flag_robust id_only,
      optional_told text_robust] using same

theorem Fragment.layout_sound : layout.Sound where
  named := by decide
  lawful := by
    simp only [layout, List.forall_mem_cons]
    exact ⟨optional_lawful text_robust text_present (fun _ _ => rfl) rfl,
      optional_lawful text_robust text_present (fun _ _ => rfl) rfl, by simp⟩
  spares := by simp [layout, optional_write]
  determined := by
    rintro ⟨⟩ ⟨⟩ same
    simpa [layout, optional_told text_robust] using same

namespace Instruction

-- No kind has a field of that name.
theorem kind_free (p : Instruction) : "kind" ∉ p.writeFields.map Prod.fst := by
  intro found
  cases p <;> exact absurd ((Layout.writeFields_names _ _).subset found) (by decide)

theorem readKind_written (p : Instruction) (arranged : Datum.RearrangedFields p.writeFields gs) :
    readKind p.kind (.record gs) = .ok p := by
  cases p with
  | baseImage p => exact BaseImage.layout_sound.read_map _ arranged
  | shell p => exact Shell.layout_sound.read_map _ arranged
  | copy p => exact Copy.layout_sound.read_map _ arranged
  | environment p => exact Environment.layout_sound.read_map _ arranged
  | labels p => exact Labels.layout_sound.read_map _ arranged
  | comment p => exact Comment.layout_sound.read_map _ arranged
  | verbatim p => exact Verbatim.layout_sound.read_map _ arranged
  | workdir p => exact Workdir.layout_sound.read_map _ arranged
  | user p => exact User.layout_sound.read_map _ arranged
  | arguments p => exact Arguments.layout_sound.read_map _ arranged
  | runscript p => exact Runscript.layout_sound.read_map _ arranged
  | fragment p => exact Fragment.layout_sound.read_map _ arranged

-- Every instruction is read back from its dump, and from every datum that has the fields of the dump in
-- some other order: a reader of an object cannot rely on one.
theorem dump_restores (p : Instruction) :
    codec.read (codec.write p) = .ok p ∧
      ∀ d, (codec.write p).Rearranged d → codec.read d = .ok p := by
  have record : ∀ gs, Datum.RearrangedFields (("kind", .text p.kind) :: p.writeFields) gs →
      codec.read (.record gs) = .ok p := by
    intro gs arranged
    obtain ⟨tag, others⟩ := arranged.tagged p.kind_free
    simp only [codec, read, tag]
    exact p.readKind_written others
  have plain : codec.read (codec.write p) = .ok p := record _ (Datum.RearrangedFields.refl _)
  refine ⟨plain, fun d arranged => ?_⟩
  cases arranged with
  | same => exact plain
  | record fields => exact record _ fields

-- The fields of a dumped workdir the other way round.
theorem dump_restores_workdir :
    codec.read (.record [("app", .text "x"), ("directory", .text "/opt"), ("kind", .text "workdir")]) =
      .ok (.workdir ⟨"/opt", some "x"⟩) := by
  refine (dump_restores (.workdir ⟨"/opt", some "x"⟩)).2 _ (.record ?_)
  have last : Datum.RearrangedFields [] ([] ++ []) := .nil
  have two : Datum.RearrangedFields [("app", .text "x")] ([] ++ ("app", .text "x") :: []) := .cons .same last
  have three : Datum.RearrangedFields [("directory", .text "/opt"), ("app", .text "x")]
      ([("app", .text "x")] ++ ("directory", .text "/opt") :: []) := .cons .same two
  have back : Datum.RearrangedFields
      [("kind", .text "workdir"), ("directory", .text "/opt"), ("app", .text "x")]
      ([("app", .text "x"), ("directory", .text "/opt")] ++ ("kind", .text "workdir") :: []) :=
    .cons .same three
  exact back

end Instruction

end ContainerRecipe
