import ContainerRecipe.Proofs.FileTree
import ContainerRecipe.Proofs.Text.Parts

namespace ContainerRecipe.Path

open FileTree (parts)

-- Goes on from a place below the directory by one part of a path. There is no way up from the directory.
def step (p : Path) (part : String) : Option Path :=
  if part = "" ∨ part = "." then some p
  else if part = ".." then if p = [] then none else some p.dropLast
  else some (p ++ [part])

-- The place that a path leads to, as the names on the way down from the directory, if it stays inside.
def within? (path : String) : Option Path := (parts path).foldlM step []

-- A part that leads down: a name of its own.
def IsName (part : String) : Prop := part ≠ "" ∧ part ≠ "." ∧ part ≠ ".."

instance : DecidablePred IsName := fun _ => inferInstanceAs (Decidable (_ ∧ _ ∧ _))

theorem step_name (p : Path) (name : IsName part) : p.step part = some (p ++ [part]) := by
  simp [step, name.1, name.2.1, name.2.2]

theorem step_same (p : Path) (same : part = "" ∨ part = ".") : p.step part = some p := if_pos same

theorem parts_append_slash (front back : String) : parts (front ++ "/" ++ back) = parts front ++ parts back := by
  have spelled : (front ++ "/" ++ back).toList = front.toList ++ '/' :: back.toList := by simp
  rw [parts, spelled, Text.splitOn_append_cons, List.map_append]
  rfl

theorem parts_single (single : '/' ∉ part.toList) : parts part = [part] := by
  rw [parts, List.splitOn_eq_singleton single]
  simp

theorem within?_append (front back : String) :
    within? (front ++ "/" ++ back) = (within? front).bind fun p => (parts back).foldlM step p := by
  rw [within?, parts_append_slash, List.foldlM_append]
  rfl

-- A path that stays inside has stayed inside up to each of its slashes.
theorem within?_of_append {front back : String} (inside : (within? (front ++ "/" ++ back)).isSome) :
    (within? front).isSome := by
  rw [within?_append] at inside
  cases led : within? front with
  | none =>
    rw [led] at inside
    cases inside
  | some p => rfl

theorem within?_append_single (front : String) (single : '/' ∉ part.toList) :
    within? (front ++ "/" ++ part) = (within? front).bind fun p => p.step part := by
  rw [within?_append, parts_single single]
  congr 1
  funext p
  rw [List.foldlM_cons]
  exact bind_pure _

theorem within?_single (single : '/' ∉ part.toList) : within? part = step [] part := by
  rw [within?, parts_single single, List.foldlM_cons]
  exact bind_pure _

theorem within?_append_name (front : String) (single : '/' ∉ part.toList) (name : IsName part) :
    within? (front ++ "/" ++ part) = (within? front).map (· ++ [part]) := by
  rw [within?_append_single front single, Option.map_eq_bind]
  exact congrArg _ (funext fun p => step_name p name)

theorem within?_append_same (front : String) (single : '/' ∉ part.toList) (same : part = "" ∨ part = ".") :
    within? (front ++ "/" ++ part) = within? front := by
  rw [within?_append_single front single]
  exact (congrArg _ (funext fun p => step_same p same)).trans (Option.bind_fun_some _)

theorem within?_dropTrailing (path : String) : within? (Text.dropTrailing '/' path) = within? path := by
  have longer : ∀ (front : String) (n : Nat),
      within? (front ++ String.ofList (List.replicate n '/')) = within? front := by
    intro front n
    induction n with
    | zero => simp
    | succ n ih =>
      have slash : front ++ String.ofList (List.replicate (n + 1) '/') =
          front ++ String.ofList (List.replicate n '/') ++ "/" ++ "" := by
        rw [← String.toList_inj]
        simp [List.replicate_succ']
      rw [slash, within?_append_same _ List.not_mem_nil (.inl rfl), ih]
  obtain ⟨n, whole⟩ := Text.dropTrailing_append '/' path
  conv_rhs => rw [whole]
  exact (longer _ n).symm

-- A path that leads down from the directory it is followed from, to something below.
def Descends (path : String) : Prop := FileTree.isAbsolute path = false ∧ ∃ p, within? path = some p ∧ p ≠ []

instance : DecidablePred Descends := fun path =>
  decidable_of_iff (FileTree.isAbsolute path = false ∧ (within? path).any (!·.isEmpty) = true) <| by
    unfold Descends
    cases within? path <;> simp

-- A path that is written with the directory in front, and leads to something below it.
def Below (directory path : String) : Prop := ∃ rest, path = directory ++ "/" ++ rest ∧ Descends rest

instance (directory path : String) : Decidable (Below directory path) :=
  decidable_of_iff (∃ rest ∈ (directory ++ "/").toList.isPrefixOf? path.toList, Descends (String.ofList rest)) <| by
    unfold Below
    constructor
    · rintro ⟨rest, cut, descends⟩
      refine ⟨_, ?_, descends⟩
      rw [← String.toList_inj, String.toList_append, String.toList_ofList]
      exact (List.isPrefixOf?_eq_some_iff_append_eq.mp cut).symm
    · rintro ⟨rest, rfl, descends⟩
      refine ⟨rest.toList, List.isPrefixOf?_eq_some_iff_append_eq.mpr String.toList_append.symm, ?_⟩
      rwa [String.ofList_toList]

theorem below_append_iff (directory rest : String) : Below directory (directory ++ "/" ++ rest) ↔ Descends rest := by
  constructor
  · rintro ⟨other, same, descends⟩
    rwa [(String.append_right_inj _).mp same]
  · exact fun descends => ⟨rest, rfl, descends⟩

theorem below_append_left_iff (front directory path : String) :
    Below (front ++ directory) (front ++ path) ↔ Below directory path := by
  unfold Below
  simp only [String.append_assoc, String.append_right_inj]

-- What is written behind a directory leads below it exactly if it is a slash and a path that leads down.
theorem below_self_append_iff (directory path : String) : Below directory (directory ++ path) ↔ Below "" path := by
  simpa using below_append_left_iff directory "" path

theorem descends_name (single : '/' ∉ part.toList) (name : IsName part) : Descends part := by
  refine ⟨?_, [part], (within?_single single).trans (step_name [] name), List.cons_ne_nil _ _⟩
  refine Bool.eq_false_iff.mpr fun absolute => single ?_
  exact (List.isPrefixOf_iff_prefix.mp absolute).subset (by simp)

end ContainerRecipe.Path
