import ContainerRecipe.Proofs.Render.Dockerfile
import ContainerRecipe.Proofs.Shell.Quoting

namespace ContainerRecipe.Dockerfile

-- The keyword, and the array that stands behind it.
theorem entrypoint_eq (words : List String) : entrypoint words = "ENTRYPOINT " ++ Json.array words := by
  apply String.toList_inj.mp
  rw [toList_entrypoint, String.toList_append]

theorem runscript_result {r : Runscript} (given : r.commands = command :: rest) :
    (runscript r).result = match Shell.splitWords? command with
      | some words => .ok (entrypoint words)
      | none => .error (.unbalancedQuotes command) := by
  unfold runscript
  rw [given]
  apply (Outcome.result_guarded (Outcome.result_warn _) _).trans
  cases Shell.splitWords? command with
  | some words => rfl
  | none => rfl

theorem render_runscript {t : Target} (docker : t.format = .docker) (r : Runscript) :
    ((Instruction.runscript r).render t).result = (runscript r).result := by
  unfold Instruction.render
  rw [docker]
  exact result_after_ignoreApp (.runscript r) (runscript r)

-- A text of a Dockerfile that starts the container with these words.
def Decodes (t : String) (words : List String) : Prop :=
  ∃ array, t = "ENTRYPOINT " ++ array ∧ Json.read? array = some (.list (words.map .text))

theorem entrypoint_decodes (words : List String) : Decodes (entrypoint words) words :=
  ⟨Json.array words, entrypoint_eq words, Json.read?_array words⟩

-- The entrypoint of an image is the list of the words of the first command.
theorem runscript_decodes {t : Target} (docker : t.format = .docker) {r : Runscript}
    (given : r.commands = command :: rest) :
    (Shell.splitWords? command = none →
        ((Instruction.runscript r).render t).result = .error (.unbalancedQuotes command)) ∧
      (∀ words, Shell.splitWords? command = some words →
        ∃ text, ((Instruction.runscript r).render t).result = .ok text ∧ Decodes text words) ∧
      ∀ words, command = " ".intercalate (words.map Shell.quoteWord) →
        ∃ text, ((Instruction.runscript r).render t).result = .ok text ∧ Decodes text words := by
  have written := (render_runscript docker r).trans (runscript_result given)
  have decoded : ∀ words, Shell.splitWords? command = some words →
      ∃ text, ((Instruction.runscript r).render t).result = .ok text ∧ Decodes text words := by
    intro words split
    rw [split] at written
    exact ⟨entrypoint words, written, entrypoint_decodes words⟩
  refine ⟨?_, decoded, ?_⟩
  · intro unbalanced
    rwa [unbalanced] at written
  · intro words quoted
    apply decoded
    rw [quoted]
    apply Shell.splitWords?_intercalate
    rw [List.forall₂_map_left_iff, List.forall₂_same]
    exact fun word _ => Shell.spells_quoteWord word

-- Words that hold what an array is made of, quoted for a shell.
theorem runscript_decodes_quoted :
    let words := ["sh", "-c", "echo \"[a, 'b']\" \\\\", ""]
    let r : Runscript := { commands := [" ".intercalate (words.map Shell.quoteWord), "exit 'never"], app := some "tool" }
    (Target.ofFormat .docker).format = .docker ∧
      ∃ text, ((Instruction.runscript r).render (.ofFormat .docker)).result = .ok text ∧ Decodes text words := by
  intro words r
  have given : r.commands = " ".intercalate (words.map Shell.quoteWord) :: ["exit 'never"] := rfl
  exact ⟨rfl, (runscript_decodes rfl given).2.2 words rfl⟩

end ContainerRecipe.Dockerfile
