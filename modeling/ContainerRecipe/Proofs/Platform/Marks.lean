import ContainerRecipe.Proofs.Platform.Naming

namespace ContainerRecipe.Release

section

-- Whether a character can stand in a mark.
def belongs (c : Char) : Bool :=
  names.flatten.any (foldsTo · c) || c == ':' || c == '-' || c == '_' || c == '.' || Text.isDecimalDigit c

def blankCodes : List Nat :=
  [9, 10, 11, 12, 13, 0x20, 0x85, 0xA0, 0x1680, 0x2000, 0x2001, 0x2002, 0x2003, 0x2004, 0x2005, 0x2006, 0x2007,
    0x2008, 0x2009, 0x200A, 0x2028, 0x2029, 0x202F, 0x205F, 0x3000]

theorem mem_blankCodes {c : Char} (blank : Text.isBlank c = true) : c.toNat ∈ blankCodes := by
  simp only [Text.isBlank, Bool.or_eq_true, Bool.and_eq_true, decide_eq_true_eq, beq_iff_eq] at blank
  simp only [blankCodes, List.mem_cons, List.not_mem_nil]
  omega

-- The blanks are few, so each of them is looked at.
theorem belongs_of_isBlank {c : Char} (blank : Text.isBlank c = true) : belongs c = false := by
  have apart : ∀ n ∈ blankCodes, belongs (Char.ofNat n) = false := by decide +kernel
  have same := apart _ (mem_blankCodes blank)
  rwa [Char.ofNat_toNat] at same

theorem not_separator_of_not_belongs {c : Char} (apart : belongs c = false) : [':', '-', '_'].contains c = false := by
  simp only [belongs, Bool.or_eq_false_iff, beq_eq_false_iff_ne] at apart
  simp [apart]

theorem not_point_of_not_belongs {c : Char} (apart : belongs c = false) : c ≠ '.' := by
  simp only [belongs, Bool.or_eq_false_iff, beq_eq_false_iff_ne] at apart
  exact apart.1.2

theorem not_digit_of_not_belongs {c : Char} (apart : belongs c = false) : Text.isDecimalDigit c = false := by
  simp only [belongs, Bool.or_eq_false_iff] at apart
  exact apart.2

theorem belongs_of_isDecimalDigit (digit : Text.isDecimalDigit c = true) : belongs c = true := by
  simp [belongs, digit]

theorem IsName.belongs (named : IsName name) : ∀ c ∈ name, belongs c = true := by
  intro c member
  have letter : folded c ∈ names.flatten := List.mem_flatten_of_mem named (List.mem_map_of_mem member)
  have folds : names.flatten.any (foldsTo · c) = true := List.any_eq_true.mpr ⟨_, letter, (foldsTo_iff letter c).mpr rfl⟩
  simp [Release.belongs, folds]

theorem separator_belongs (known : separator ∈ separators) : ∀ c ∈ separator, belongs c = true := by
  have each : separators.all (·.all belongs) = true := by decide
  exact List.all_eq_true.mp (List.all_eq_true.mp each separator known)

theorem Numbers.belongs (numbered : Numbers numbers major minor) : ∀ c ∈ numbers, belongs c = true := by
  cases numbered with
  | zero => nofun
  | one run => exact fun c member => belongs_of_isDecimalDigit (run.all c member)
  | two run second =>
    simp only [List.forall_mem_append, List.forall_mem_cons]
    exact ⟨fun c member => belongs_of_isDecimalDigit (run.all c member), by decide,
      fun c member => belongs_of_isDecimalDigit (second.all c member)⟩

theorem not_opens_of_not_belongs {c : Char} (apart : belongs c = false) (cs : List Char) : ¬ Opens (c :: cs) := by
  intro opens
  obtain ⟨name, rest, whole, named⟩ := opens_iff.mp opens
  cases name with
  | nil => exact absurd named (by decide)
  | cons d name =>
    cases whole
    rw [named.belongs c List.mem_cons_self] at apart
    cases apart

end

section

-- More text behind what was left.
def Mark.followed (m : Mark) (tail : List Char) : Mark := { m with rest := m.rest ++ tail }

theorem any_head?_append (none : ∀ c ∈ tail.head?, p c = false) (cs : List Char) :
    (cs ++ tail).head?.any p = cs.head?.any p := by
  cases cs with
  | cons c cs => rfl
  | nil =>
    cases tail with
    | nil => rfl
    | cons c tail => exact none c rfl

variable {tail : List Char} (apart : ∀ c ∈ tail.head?, belongs c = false)
include apart

theorem startsDigit_append_iff (cs : List Char) : StartsDigit (cs ++ tail) ↔ StartsDigit cs := by
  unfold StartsDigit
  rw [any_head?_append fun c first => not_digit_of_not_belongs (apart c first)]

theorem startsSeparator_append_iff (cs : List Char) : StartsSeparator (cs ++ tail) ↔ StartsSeparator cs := by
  unfold StartsSeparator
  rw [any_head?_append fun c first => not_separator_of_not_belongs (apart c first)]

theorem startsMinor_append_iff (cs : List Char) : StartsMinor (cs ++ tail) ↔ StartsMinor cs := by
  unfold StartsMinor
  cases cs with
  | cons c cs => simp only [List.cons_append, List.head?_cons, List.tail_cons, startsDigit_append_iff apart]
  | nil =>
    have none : tail.head? ≠ some '.' := fun first => not_point_of_not_belongs (apart '.' first) rfl
    simp [none]

-- A mark ends where it did before.
theorem Mark.Begins.followed {m : Mark} (begins : m.Begins cs) : (m.followed tail).Begins (cs ++ tail) := by
  obtain ⟨named, ⟨separator, known, numbers, rfl, numbered, first⟩, ends⟩ := begins
  refine ⟨named, ⟨separator, known, numbers, ?_, numbered, fun nothing => ?_⟩, ?_⟩
  · simp [Mark.followed]
  · have kept := mt (startsSeparator_append_iff apart _).mp (first nothing)
    rwa [List.append_assoc] at kept
  · exact ⟨mt (startsDigit_append_iff apart _).mp ends.digit,
      fun given single => mt (startsMinor_append_iff apart _).mp (ends.point given single)⟩

end

section

theorem findMark?_blanks {lead : List Char} (blank : ∀ c ∈ lead, Text.isBlank c = true) (cs : List Char) :
    findMark? (lead ++ cs) = findMark? cs := by
  induction lead with
  | nil => rfl
  | cons c lead ih =>
    obtain ⟨first, others⟩ := List.forall_mem_cons.mp blank
    have closed := not_opens_of_not_belongs (belongs_of_isBlank first) (lead ++ cs)
    rw [List.cons_append, findMark?, markAt?_eq_none_iff.mpr closed, Option.none_or, ih others]

theorem findMark?_of_markAt? (found : markAt? cs = some m) : findMark? cs = some m := by
  cases cs with
  | nil => cases found
  | cons c cs => rw [findMark?, found, Option.some_or]

-- What is read from the whole of a text is found in it.
theorem infer?_of_ofText? (read : ofText? s = some r) : infer? s = some r := by
  obtain ⟨lead, trail, parts, before, after⟩ := Text.trimChars_parts s.toList
  unfold ofText? at read
  obtain ⟨m, found, read⟩ := Option.bind_eq_some_iff.mp read
  split at read
  · rename_i whole
    have apart : ∀ c ∈ trail.head?, belongs c = false := fun c first =>
      belongs_of_isBlank (after c (List.mem_of_mem_head? first))
    have mark : findMark? s.toList = some (m.followed trail) := by
      rw [parts, findMark?_blanks before]
      exact findMark?_of_markAt? (markAt?_eq_some_iff.mpr ((markAt?_eq_some_iff.mp found).followed apart))
    unfold infer?
    rw [mark]
    exact read
  · cases read

end

-- The text of a release is read as this release, and whatever text is read as a release, a search of this
-- text finds the same one.
theorem readers_agree :
    (∀ r : Release, parse r.text = .ok r) ∧ ∀ s r, parse s = .ok r → infer? s = some r := by
  refine ⟨parse_text, fun s r accepted => infer?_of_ofText? ?_⟩
  unfold parse at accepted
  split at accepted
  · rename_i read
    cases accepted
    exact read
  · cases accepted

-- A spelling of its own, between blanks.
theorem readers_agree_spelled :
    parse "\t Ubuntu-24.04\n" = .ok ⟨.ubuntu, some ⟨24, 4⟩⟩ ∧
      infer? "\t Ubuntu-24.04\n" = some ⟨.ubuntu, some ⟨24, 4⟩⟩ := by
  have accepted : parse "\t Ubuntu-24.04\n" = .ok ⟨.ubuntu, some ⟨24, 4⟩⟩ := by decide +kernel
  exact ⟨accepted, readers_agree.2 _ _ accepted⟩

end ContainerRecipe.Release
