import ContainerRecipe.Text.Blank
import ContainerRecipe.Text.Digit
import Mathlib.Data.List.TakeWhile

namespace ContainerRecipe.Text

theorem toNat_of_isDigit {c : Char} (digit : c.isDigit = true) : 48 ≤ c.toNat ∧ c.toNat ≤ 57 := by
  simp only [Char.isDigit, Bool.and_eq_true, decide_eq_true_eq] at digit
  exact ⟨UInt32.le_iff_toNat_le.mp digit.1, UInt32.le_iff_toNat_le.mp digit.2⟩

theorem isBlank_of_isDigit {c : Char} (digit : c.isDigit = true) : isBlank c = false := by
  obtain ⟨low, high⟩ := toNat_of_isDigit digit
  simp only [isBlank, Bool.or_eq_false_iff, Bool.and_eq_false_iff, decide_eq_false_iff_not, beq_eq_false_iff_ne]
  omega

theorem digitsValue_eq (cs : List Char) : digitsValue cs = Nat.ofDigitChars 10 cs 0 :=
  Nat.ofDigitChars_eq_foldl.symm

-- A sign in front is no digit, so nothing is dropped from a run of digits.
theorem dropPlus_of_digits {cs : List Char} (digits : cs.all Char.isDigit = true) : dropPlus cs = cs := by
  unfold dropPlus
  split
  · simp at digits
  · rfl

-- The characters of a number, which are read as this number.
structure Numeral (cs : List Char) (n : UInt32) : Prop where
  nonempty : cs ≠ []
  digits : cs.all Char.isDigit = true
  value : digitsValue cs = n.toNat

namespace Numeral

theorem isDigit (numeral : Numeral cs n) : ∀ c ∈ cs, c.isDigit = true :=
  List.all_eq_true.mp numeral.digits

theorem read (numeral : Numeral cs n) : readWord? cs = some n := by
  have bound : n.toNat < UInt32.size := n.toNat_lt
  have digits : readDigits? (dropPlus cs) = some n.toNat := by
    simp [readDigits?, dropPlus_of_digits numeral.digits, numeral.digits, numeral.nonempty, numeral.value]
  rw [readWord?, digits, Option.bind_some, if_pos bound, UInt32.ofNat_toNat]

theorem ofRepr (n : UInt32) : Numeral (Nat.repr n.toNat).toList n := by
  rw [Nat.toList_repr]
  refine ⟨Nat.toDigits_ne_nil, ?_, ?_⟩
  · rw [List.all_eq_true]
    intro c member
    exact Nat.isDigit_of_mem_toDigits (by decide) (by decide) member
  · rw [digitsValue_eq, Nat.ofDigitChars_ten_toDigits]

-- A zero in front changes nothing about the value.
theorem zeroCons (numeral : Numeral cs n) : Numeral ('0' :: cs) n := by
  refine ⟨by simp, by simpa using numeral.digits, ?_⟩
  rw [← numeral.value]
  simp [digitsValue]

theorem ofTwoDigits (n : UInt32) : Numeral (twoDigits n.toNat).toList n := by
  unfold twoDigits
  split
  · rw [String.toList_append]
    exact (ofRepr n).zeroCons
  · exact ofRepr n

end Numeral

-- Nothing is trimmed from a text without blanks.
theorem trimChars_of_noBlank {cs : List Char} (clear : ∀ c ∈ cs, isBlank c = false) :
    trimChars cs = cs := by
  have front : ∀ ds : List Char, (∀ c ∈ ds, isBlank c = false) → ds.dropWhile isBlank = ds := by
    intro ds clear
    cases ds with
    | nil => rfl
    | cons c ds => exact List.dropWhile_cons_of_neg (by simp [clear c])
  unfold trimChars
  rw [front cs clear, front cs.reverse (by simpa using clear), List.reverse_reverse]

-- What is trimmed from a text are blanks before and after the rest.
theorem trimChars_parts (cs : List Char) :
    ∃ lead trail, cs = lead ++ (trimChars cs ++ trail) ∧ (∀ c ∈ lead, isBlank c = true) ∧
      ∀ c ∈ trail, isBlank c = true := by
  have back := List.takeWhile_append_dropWhile (p := isBlank) (l := (cs.dropWhile isBlank).reverse)
  refine ⟨cs.takeWhile isBlank, ((cs.dropWhile isBlank).reverse.takeWhile isBlank).reverse, ?_, ?_, ?_⟩
  · rw [trimChars, ← List.reverse_append, back, List.reverse_reverse, List.takeWhile_append_dropWhile]
  · exact List.all_eq_true.mp List.all_takeWhile
  · exact fun c member => List.all_eq_true.mp List.all_takeWhile c (List.mem_reverse.mp member)

-- Blanks around a text without blanks are what is trimmed.
theorem trimChars_surrounded {lead cs trail : List Char} (before : ∀ c ∈ lead, isBlank c = true)
    (clear : ∀ c ∈ cs, isBlank c = false) (after : ∀ c ∈ trail, isBlank c = true) :
    trimChars (lead ++ (cs ++ trail)) = cs := by
  unfold trimChars
  rw [List.dropWhile_append_of_pos before]
  cases cs with
  | nil =>
    rw [List.nil_append, List.dropWhile_eq_nil_iff.mpr after]
    rfl
  | cons c cs =>
    have kept := trimChars_of_noBlank clear
    rw [List.cons_append, List.dropWhile_cons_of_neg (by simp [clear c]), ← List.cons_append, List.reverse_append,
      List.dropWhile_append_of_pos (by simpa using after)]
    rwa [trimChars, List.dropWhile_cons_of_neg (by simp [clear c])] at kept

end ContainerRecipe.Text
