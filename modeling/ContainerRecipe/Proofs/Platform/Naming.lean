import ContainerRecipe.Proofs.Platform.Spellings

namespace ContainerRecipe

theorem Architecture.ofName?_text (a : Architecture) : ofName? a.text = some a := by
  cases a <;> decide +kernel

theorem Architecture.text_injective {a b : Architecture} (same : a.text = b.text) : a = b := by
  have read := congrArg ofName? same
  rw [ofName?_text, ofName?_text] at read
  exact Option.some.inj read

theorem Architecture.slash_not_mem_text (a : Architecture) : '/' ∉ a.text.toList := by
  cases a <;> decide

theorem Architecture.parse_text (a : Architecture) : parse a.text = .ok a := by
  unfold parse
  rw [ofName?_text]

theorem Distribution.ofName?_text (d : Distribution) : ofName? d.text = some d := by
  cases d <;> decide +kernel

namespace Release

theorem isName_text (d : Distribution) : IsName d.text.toList := by
  cases d <;> decide

theorem run_of_numeral (numeral : Text.Numeral cs n) : Run cs :=
  ⟨numeral.nonempty, fun c member => Text.isDecimalDigit_of_isDigit (numeral.isDigit c member)⟩

theorem begins_name (d : Distribution) :
    Mark.Begins { name := d.text.toList, major := none, minor := none, rest := [] } d.text.toList where
  name := isName_text d
  spelled := ⟨[], by decide, [], by simp, .zero, fun _ => Numbers.zero.not_startsSeparator fun _ => rfl⟩
  ends := ends_nil _ _

theorem begins_numbers (d : Distribution) (major : Text.Numeral cs m) (minor : Text.Numeral ds n)
    (stop : ¬ StartsDigit rest) :
    Mark.Begins { name := d.text.toList, major := some cs, minor := some ds, rest }
      (d.text.toList ++ (cs ++ '.' :: ds ++ rest)) where
  name := isName_text d
  spelled := by
    have numbered : Numbers (cs ++ '.' :: ds) (some cs) (some ds) := .two (run_of_numeral major) (run_of_numeral minor)
    exact ⟨[], by decide, _, rfl, numbered, fun _ => numbered.not_startsSeparator nofun⟩
  ends := ⟨stop, by simp⟩

-- Both numbers of a version stand in its label, with a point between them.
theorem versionLabel_parts (d : Distribution) (v : Version) :
    ∃ cs ds, (d.versionLabel v).toList = cs ++ '.' :: ds ∧ Text.Numeral cs v.major ∧
      Text.Numeral ds v.minor := by
  cases d with
  | ubuntu =>
    refine ⟨_, _, ?_, .ofRepr v.major, .ofTwoDigits v.minor⟩
    simp [Distribution.versionLabel]
  | centos | rhel | rockyLinux =>
    refine ⟨_, _, ?_, .ofRepr v.major, .ofRepr v.minor⟩
    simp [Distribution.versionLabel, Version.text]

-- Nothing is trimmed from the text of a release: it has no blank.
theorem text_noBlank (r : Release) : ∀ c ∈ r.text.toList, Text.isBlank c = false := by
  obtain ⟨d, version⟩ := r
  have noBlank : d.text.toList.any Text.isBlank = false := by cases d <;> decide
  have name : ∀ c ∈ d.text.toList, Text.isBlank c = false := by simpa using noBlank
  cases version with
  | none => exact name
  | some v =>
    obtain ⟨cs, ds, parts, major, minor⟩ := versionLabel_parts d v
    intro c member
    simp only [text, String.toList_append, parts, List.mem_append, List.mem_cons] at member
    rcases member with inName | inMajor | rfl | inMinor
    · exact name c inName
    · exact Text.isBlank_of_isDigit (major.isDigit c inMajor)
    · decide
    · exact Text.isBlank_of_isDigit (minor.isDigit c inMinor)

theorem ofText?_text (r : Release) : ofText? r.text = some r := by
  unfold ofText?
  rw [Text.trimChars_of_noBlank (text_noBlank r)]
  obtain ⟨d, version⟩ := r
  cases version with
  | none =>
    rw [text, markAt?_eq_some_iff.mpr (begins_name d)]
    simp [ofMark?, Distribution.ofName?_text, versionOf]
  | some v =>
    obtain ⟨cs, ds, parts, major, minor⟩ := versionLabel_parts d v
    have marked := markAt?_eq_some_iff.mpr (begins_numbers d major minor (show ¬ StartsDigit [] by decide))
    rw [List.append_nil] at marked
    rw [text, String.toList_append, parts, marked]
    simp [ofMark?, Distribution.ofName?_text, versionOf, major.read, minor.read]

theorem parse_text (r : Release) : parse r.text = .ok r := by
  unfold parse
  rw [ofText?_text]

end Release

end ContainerRecipe
