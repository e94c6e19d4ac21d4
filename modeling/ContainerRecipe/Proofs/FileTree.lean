import ContainerRecipe.FileTree
import ContainerRecipe.Proofs.Outcome
import ContainerRecipe.Proofs.Text.Parts
import Mathlib.Data.List.Infix
import Mathlib.Tactic.SplitIfs

namespace ContainerRecipe.FileTree

variable {t : FileTree} {p q place : Path} {bytes : ByteArray}

section

theorem isFile_iff : t.isFile p = true ↔ ∃ entry ∈ t.files, entry.1 = p := by
  simp only [isFile, List.any_eq_true, decide_eq_true_eq]

theorem isDirectory_iff : t.isDirectory p = true ↔
    p = [] ∨ p <+: t.directory ∨ (∃ q ∈ t.directories, p <+: q) ∨
      ∃ entry ∈ t.files, p <+: entry.1 ∧ entry.1 ≠ p := by
  simp only [isDirectory, Path.holds, Bool.or_eq_true, List.isEmpty_iff, List.isPrefixOf_iff_prefix,
    List.any_eq_true, Bool.and_eq_true, decide_eq_true_eq, or_assoc]

-- Every directory lies in directories.
theorem isDirectory_of_within (within : p <+: q) (directory : t.isDirectory q = true) : t.isDirectory p = true := by
  rw [isDirectory_iff] at directory ⊢
  rcases directory with rfl | work | ⟨named, member, below⟩ | ⟨entry, member, below, apart⟩
  · exact .inl (List.prefix_nil.mp within)
  · exact .inr (.inl (within.trans work))
  · exact .inr (.inr (.inl ⟨named, member, within.trans below⟩))
  · refine .inr (.inr (.inr ⟨entry, member, within.trans below, ?_⟩))
    rintro rfl
    exact apart (within.eq_of_length_le below.length_le)

end

section

-- A name that leads on from a directory: the directory itself, the one above it, or what it names there.
inductive Leads (t : FileTree) (p : Path) : String → Path → Prop where
  | same : Leads t p "." p
  | above : Leads t p ".." p.dropLast
  | below (named : name ≠ "." ∧ name ≠ "..") (short : name.utf8ByteSize ≤ longestName)
      (there : t.isFile (p ++ [name]) = true ∨ t.isDirectory (p ++ [name]) = true) :
      Leads t p name (p ++ [name])

theorem Leads.present (leads : Leads t p name q) (directory : t.isDirectory p = true) :
    t.isFile q = true ∨ t.isDirectory q = true := by
  cases leads with
  | same => exact .inr directory
  | above => exact .inr (isDirectory_of_within (List.dropLast_prefix p) directory)
  | below _ _ there => exact there

-- What stands between the slashes of a path.
def parts (path : String) : List String := (path.toList.splitOn '/').map String.ofList

end

section

theorem mem_put {entry : Path × ByteArray} : entry ∈ (t.put place bytes).files ↔
    entry ∈ t.files ∧ entry.1 ≠ place ∨ entry = (place, bytes) := by
  simp only [put, List.mem_append, List.mem_filter, decide_eq_true_eq, List.mem_singleton]

-- The places of files afterwards.
theorem exists_mem_put (P : Path → Prop) : (∃ entry ∈ (t.put place bytes).files, P entry.1) ↔
    (∃ entry ∈ t.files, P entry.1) ∨ P place := by
  simp only [mem_put]
  constructor
  · rintro ⟨entry, ⟨member, -⟩ | rfl, holds⟩
    · exact .inl ⟨entry, member, holds⟩
    · exact .inr holds
  · rintro (⟨entry, member, holds⟩ | holds)
    · by_cases same : entry.1 = place
      · exact ⟨(place, bytes), .inr rfl, same ▸ holds⟩
      · exact ⟨entry, .inl ⟨member, same⟩, holds⟩
    · exact ⟨(place, bytes), .inr rfl, holds⟩

theorem isFile_put : (t.put place bytes).isFile p = true ↔ t.isFile p = true ∨ place = p := by
  rw [isFile_iff, isFile_iff]
  exact exists_mem_put (· = p)

theorem isDirectory_put : (t.put place bytes).isDirectory p = true ↔
    t.isDirectory p = true ∨ p <+: place ∧ place ≠ p := by
  have places : (∃ entry ∈ (t.put place bytes).files, p <+: entry.1 ∧ entry.1 ≠ p) ↔
      (∃ entry ∈ t.files, p <+: entry.1 ∧ entry.1 ≠ p) ∨ p <+: place ∧ place ≠ p :=
    exists_mem_put fun file => p <+: file ∧ file ≠ p
  rw [isDirectory_iff, isDirectory_iff, places, or_assoc, or_assoc, or_assoc]
  rfl

-- The way that was there before is there afterwards.
theorem Leads.put (leads : Leads t p name q) : Leads (t.put place bytes) p name q := by
  cases leads with
  | same => exact .same
  | above => exact .above
  | below named short there =>
    exact .below named short (there.imp (isFile_put.mpr <| .inl ·) (isDirectory_put.mpr <| .inl ·))

section

variable (made : t.destination path = .ok place)
include made

end

end

end ContainerRecipe.FileTree
