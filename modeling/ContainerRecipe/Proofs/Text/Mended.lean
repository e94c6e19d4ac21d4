import ContainerRecipe.Text.Mended
import Mathlib.Algebra.Group.Nat.Defs
import Mathlib.Tactic.SplitIfs

namespace ContainerRecipe.Text

-- A character of ASCII other than the zero, which stands for numbers that are no characters.
def Plain (c : Char) : Prop := 0 < c.toNat ∧ c.toNat < 0x80

instance (c : Char) : Decidable (Plain c) := inferInstanceAs (Decidable (_ ∧ _))

theorem not_plain_ofNat {n : Nat} (beyond : 0x80 ≤ n) : ¬ Plain (Char.ofNat n) := by
  unfold Char.ofNat
  by_cases valid : n.isValidChar
  · rw [dif_pos valid]
    show ¬ (0 < n ∧ n < 0x80)
    omega
  · rw [dif_neg valid]
    decide

theorem toNat_ofNat {n : Nat} (small : n < 0x80) : (Char.ofNat n).toNat = n := by
  unfold Char.ofNat
  rw [dif_pos (.inl (by omega))]
  rfl

namespace Mending

variable {m : Mending} {bytes : List Nat} {byte : Nat}

-- A character that was begun gets a number beyond ASCII, whichever bytes are next.
structure Begun (m : Mending) : Prop where
  some : m.missing ≠ []
  tails : ∀ range ∈ m.missing, 0x80 ≤ range.1 ∧ range.2 ≤ 0xBF
  beyond : ∀ range rest, m.missing = range :: rest → 0x80 ≤ (m.value * 0x40 + range.1 % 0x40) * 0x40 ^ rest.length

-- What was read from some bytes: the characters of these bytes, unless one of them is not ASCII.
inductive Tells (m : Mending) (bytes : List Nat) : Prop where
  | plain (whole : m.missing = []) (same : m.read.reverse.map Char.toNat = bytes)
  | strange (member : c ∈ m.read) (strange : ¬ Plain c)
  | begun (begun : m.Begun)

theorem begun_of_followers (read : List Char) (follow : followers? byte = some (range :: rest)) :
    Begun { read, missing := range :: rest, value := firstBits byte } := by
  unfold followers? at follow
  split_ifs at follow
  all_goals cases follow
  all_goals
    refine ⟨List.cons_ne_nil _ _, by simp, ?_⟩
    rintro _ _ ⟨⟩
    unfold firstBits
    simp only [List.length_cons, List.length_nil]
    split_ifs <;> omega

theorem follow_nil (follow : followers? byte = some []) : byte < 0x80 := by
  unfold followers? at follow
  split_ifs at follow
  · assumption
  all_goals cases follow

theorem tells_start (whole : m.missing = []) (before : m.Tells bytes) : (m.start byte).Tells (bytes ++ [byte]) := by
  unfold start
  split
  · exact .strange List.mem_cons_self (by decide)
  · rename_i follow
    cases before with
    | plain _ same =>
      refine .plain rfl ?_
      rw [List.reverse_cons, List.map_append, same, List.map_singleton, toNat_ofNat (follow_nil follow)]
    | strange member strange => exact .strange (List.mem_cons_of_mem _ member) strange
    | begun begun => exact absurd whole begun.some
  · rename_i missing given follow
    cases missing with
    | nil => exact absurd rfl given
    | cons range rest => exact .begun (begun_of_followers m.read follow)

theorem Begun.next {range : Nat × Nat} (begun : m.Begun) (held : m.missing = range :: rest) (low : range.1 ≤ byte)
    (high : byte ≤ range.2) : 0x80 ≤ (m.value * 0x40 + byte % 0x40) * 0x40 ^ rest.length := by
  obtain ⟨first, last⟩ := begun.tails range (held ▸ List.mem_cons_self)
  refine Nat.le_trans (begun.beyond range rest held) (Nat.mul_le_mul_right _ ?_)
  omega

theorem tells_step (before : m.Tells bytes) (byte : Nat) : (m.step byte).Tells (bytes ++ [byte]) := by
  unfold step
  split
  · rename_i whole
    exact tells_start whole before
  · rename_i low high missing held
    split
    · rename_i inside
      obtain ⟨first, last⟩ := by simpa using inside
      cases before with
      | plain whole => rw [whole] at held; cases held
      | strange member strange =>
        dsimp only
        split
        · exact .strange (List.mem_cons_of_mem _ member) strange
        · exact .strange member strange
      | begun begun =>
        have beyond := begun.next held first last
        dsimp only
        cases missing with
        | nil => exact .strange List.mem_cons_self (not_plain_ofNat (by simpa using beyond))
        | cons range rest =>
          have tails : ∀ range ∈ m.missing, _ := begun.tails
          rw [held] at tails
          refine .begun ⟨List.cons_ne_nil _ _, (List.forall_mem_cons.mp tails).2, ?_⟩
          rintro _ _ ⟨⟩
          rw [List.length_cons, Nat.pow_succ', ← Nat.mul_assoc] at beyond
          exact Nat.le_trans beyond (Nat.mul_le_mul_right _ (Nat.le_add_right _ _))
    · exact tells_start rfl (.strange List.mem_cons_self (by decide))

theorem tells_foldl (before : m.Tells bytes) (more : List Nat) :
    (more.foldl step m).Tells (bytes ++ more) := by
  induction more generalizing m bytes with
  | nil => rwa [List.append_nil]
  | cons byte more ih =>
    rw [List.append_cons]
    exact ih (tells_step before byte)

theorem finish_of_plain (told : m.Tells bytes) (plain : ∀ c ∈ m.finish, Plain c) : m.finish.map Char.toNat = bytes := by
  unfold finish at plain ⊢
  cases told with
  | plain whole same =>
    simpa [whole] using same
  | strange member strange =>
    refine absurd (plain _ ?_) strange
    split <;> simp [member]
  | begun begun =>
    refine absurd (plain replacement ?_) (by decide)
    simp [begun.some]

end Mending

theorem utf8EncodeChar_of_plain {c : Char} (plain : Plain c) :
    (String.utf8EncodeChar c).map UInt8.toNat = [c.toNat] := by
  have small : c.toNat < 0x80 := plain.2
  have single : c.utf8Size = 1 :=
    Char.utf8Size_eq_one_iff.mpr (UInt32.le_iff_toNat_le.mpr (Nat.le_of_lt_succ small))
  rw [String.utf8EncodeChar_eq_singleton single, List.map_singleton]
  refine congrArg (fun n => [n]) ?_
  show c.toNat % 2 ^ 8 = c.toNat
  omega

theorem flatMap_of_plain {cs : List Char} (plain : ∀ c ∈ cs, Plain c) :
    (cs.flatMap String.utf8EncodeChar).map UInt8.toNat = cs.map Char.toNat := by
  induction cs with
  | nil => rfl
  | cons c cs ih =>
    obtain ⟨first, rest⟩ := List.forall_mem_cons.mp plain
    rw [List.flatMap_cons, List.map_append, utf8EncodeChar_of_plain first, ih rest]
    rfl

-- A name of plain characters is read from its own bytes alone.
theorem eq_of_mended {content : ByteArray} {name : String} (plain : ∀ c ∈ name.toList, Plain c)
    (read : mended content = name) : content = name.toUTF8 := by
  subst read
  unfold mended at plain ⊢
  rw [String.toList_ofList] at plain
  have empty : Mending.Tells {} [] := .plain rfl rfl
  have told := Mending.tells_foldl empty (content.data.toList.map UInt8.toNat)
  rw [List.foldl_map, List.nil_append] at told
  have same := (flatMap_of_plain plain).trans (Mending.finish_of_plain told plain)
  rw [String.toUTF8_eq_toByteArray, String.toByteArray_ofList, List.utf8Encode]
  refine ByteArray.ext (Array.toList_inj.mp ?_)
  rw [List.toList_data_toByteArray]
  exact (List.map_inj_right fun _ _ => UInt8.toNat_inj.mp).mp same.symm

end ContainerRecipe.Text
