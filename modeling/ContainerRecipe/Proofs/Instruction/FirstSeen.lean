import ContainerRecipe.Proofs.Instruction.Pieces

namespace ContainerRecipe

section

variable {α : Type} [BEq α] [LawfulBEq α]

-- A list without repeats that has what another list has, in the order in which it stands there first.
structure FirstSeen (all kept : List α) : Prop where
  once : kept.Nodup
  same : ∀ a, a ∈ kept ↔ a ∈ all
  ordered : kept.Pairwise fun a b => all.idxOf a < all.idxOf b

-- Leaving out others does not change which of two members comes first.
theorem idxOf_filter_lt_iff (keep : α → Bool) {a b : α} (first : keep a = true) (second : keep b = true)
    (as : List α) :
    (as.filter keep).idxOf a < (as.filter keep).idxOf b ↔ as.idxOf a < as.idxOf b := by
  induction as with
  | nil => rfl
  | cons c rest ih =>
    rw [List.filter_cons]
    split
    · simp only [List.idxOf_cons]
      cases c == a <;> cases c == b <;> simp [ih]
    · rename_i dropped
      have notFirst : (c == a) = false := by
        rw [beq_eq_false_iff_ne]
        rintro rfl
        exact dropped first
      have notSecond : (c == b) = false := by
        rw [beq_eq_false_iff_ne]
        rintro rfl
        exact dropped second
      simp only [List.idxOf_cons, notFirst, notSecond, cond_false, Nat.add_lt_add_iff_right]
      exact ih

theorem pairwise_idxOf_eraseDups (as : List α) :
    as.eraseDups.Pairwise fun a b => as.idxOf a < as.idxOf b := by
  induction as using firstSeen_induction with
  | nil => exact .nil
  | cons a as ih =>
    have other : ∀ b ∈ (as.filter fun b => !b == a).eraseDups, (!b == a) = true := by
      intro b member
      exact (List.mem_filter.mp (List.mem_eraseDups.mp member)).2
    have later : ∀ b ∈ (as.filter fun b => !b == a).eraseDups, (a :: as).idxOf b = as.idxOf b + 1 := by
      intro b member
      have different : (a == b) = false := by
        rw [BEq.comm]
        simpa using other b member
      rw [List.idxOf_cons, different, cond_false]
    rw [List.eraseDups_cons]
    refine List.pairwise_cons.mpr ⟨fun b member => ?_, ih.imp_of_mem ?_⟩
    · rw [later b member, List.idxOf_cons_self]
      exact Nat.succ_pos _
    · intro b c first second before
      rw [later b first, later c second, Nat.add_lt_add_iff_right]
      exact (idxOf_filter_lt_iff (fun x => !x == a) (other b first) (other c second) as).mp before

theorem firstSeen_eraseDups (as : List α) : FirstSeen as as.eraseDups where
  once := by
    refine (pairwise_idxOf_eraseDups as).imp ?_
    rintro a _ before rfl
    exact Nat.lt_irrefl _ before
  same := fun _ => List.mem_eraseDups
  ordered := pairwise_idxOf_eraseDups as

end

-- What is picked from a list, and one warning for each member that is not, in their order.
theorem sift_reports {pick : α → Except Warning β} {fits : α → Option β} {Reports : α → Warning → Prop}
    (picks : ∀ a, (pick a).toOption = fits a) (reports : ∀ a w, pick a = .error w → Reports a w)
    (items : List α) : (sift pick items).value = items.filterMap fits ∧
      List.Forall₂ Reports (items.filter fun a => (fits a).isNone) (sift pick items).warnings := by
  refine ⟨List.filterMap_congr fun a _ => picks a, ?_⟩
  induction items with
  | nil => exact .nil
  | cons a rest ih =>
    have here := picks a
    cases told : pick a with
    | ok b =>
      rw [told] at here
      simpa [sift, told, ← here, Except.toOption] using ih
    | error w =>
      rw [told] at here
      have reported := List.Forall₂.cons (reports a w told) ih
      simpa [sift, told, ← here, Except.toOption] using reported

namespace Instruction

-- A copy that goes together with another one: from the same source stage, and for the same owner.
def copyLike (first : Copy) : Instruction → Option Copy
  | .copy c => if c.source = first.source ∧ c.owner = first.owner then some c else none
  | _ => none

def runscript? : Instruction → Option Runscript
  | .runscript r => some r
  | _ => none

-- What is told about an instruction that does not go together with the first copy of a list.
inductive ApartFromCopy (first : Copy) : Instruction → Warning → Prop where
  | kind (other : p.kind ≠ "copy") : ApartFromCopy first p (.kindSkipped "copy" p.kind)
  | source (other : c.source ≠ first.source) :
      ApartFromCopy first (.copy c) (.stageSkipped first.source c.source)
  | owner (same : c.source = first.source) (other : c.owner ≠ first.owner) :
      ApartFromCopy first (.copy c) (.ownerSkipped first.owner c.owner)

-- The same for the first runscript of a list.
inductive ApartFromRunscript : Instruction → Warning → Prop where
  | kind (other : p.kind ≠ "runscript") : ApartFromRunscript p (.kindSkipped "runscript" p.kind)

theorem toOption_pickCopy (first : Copy) (p : Instruction) :
    (pickCopy first p).toOption = copyLike first p := by
  cases p with
  | copy c =>
    simp only [pickCopy, copyLike]
    by_cases source : c.source = first.source <;> by_cases owner : c.owner = first.owner <;>
      simp [source, owner, Except.toOption]
  | _ => rfl

theorem apart_of_pickCopy (first : Copy) (p : Instruction) (w : Warning)
    (refused : pickCopy first p = .error w) : ApartFromCopy first p w := by
  cases p with
  | copy c =>
    simp only [pickCopy] at refused
    split at refused
    · rename_i other
      cases refused
      exact .source other
    · rename_i same
      split at refused
      · rename_i other
        cases refused
        exact .owner (not_not.mp same) other
      · cases refused
  | _ =>
    cases refused
    exact .kind (by simp [Instruction.kind])

theorem toOption_pickRunscript (p : Instruction) : (pickRunscript p).toOption = runscript? p := by
  cases p <;> rfl

theorem apart_of_pickRunscript (p : Instruction) (w : Warning) (refused : pickRunscript p = .error w) :
    ApartFromRunscript p w := by
  cases p with
  | runscript r => cases refused
  | _ =>
    cases refused
    exact .kind (by simp [Instruction.kind])

-- What lists that start with a copy or with a runscript are merged to, whatever else stands in them.
theorem merge_first_seen (rest : List Instruction) (app : Option String) :
    (∀ first : Copy,
      let items := .copy first :: rest
      let copies := items.filterMap (copyLike first)
      ∃ merged : Copy, (merge items app).result = .ok (.copy merged) ∧
        merged.source = first.source ∧ merged.owner = first.owner ∧ merged.app = app ∧
        FirstSeen (copies.flatMap (·.entries)) merged.entries ∧
        FirstSeen (copies.flatMap (·.exclude)) merged.exclude ∧
        List.Forall₂ (ApartFromCopy first) (items.filter fun p => (copyLike first p).isNone)
          (merge items app).warnings) ∧
    ∀ first : Runscript,
      let items := .runscript first :: rest
      ∃ merged : Runscript, (merge items app).result = .ok (.runscript merged) ∧
        merged.exec = first.exec ∧ merged.app = app ∧
        FirstSeen ((items.filterMap runscript?).flatMap (·.commands)) merged.commands ∧
        List.Forall₂ ApartFromRunscript (items.filter fun p => (runscript? p).isNone)
          (merge items app).warnings := by
  constructor
  · intro first items copies
    obtain ⟨picked, warned⟩ := sift_reports (toOption_pickCopy first) (apart_of_pickCopy first) items
    rw [(copy_mergesBy first).merge_eq rest app, picked]
    exact ⟨_, rfl, rfl, rfl, rfl, firstSeen_eraseDups _, firstSeen_eraseDups _, warned⟩
  · intro first items
    obtain ⟨picked, warned⟩ := sift_reports toOption_pickRunscript apart_of_pickRunscript items
    rw [(runscript_mergesBy first).merge_eq rest app, picked]
    exact ⟨_, rfl, rfl, rfl, firstSeen_eraseDups _, warned⟩

end Instruction

end ContainerRecipe
