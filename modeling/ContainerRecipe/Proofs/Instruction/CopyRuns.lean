import ContainerRecipe.Proofs.Instruction.Merged
import Mathlib.Data.List.Induction

namespace ContainerRecipe

-- The sources that were copied last to each destination.
abbrev Files := String → Option (List String)

namespace Files

def write (σ : Files) (e : CopyEntry) : Files := fun path =>
  if path = e.destination then some e.sources else σ path

def run (σ : Files) (entries : List CopyEntry) : Files := entries.foldl write σ

theorem run_append (σ : Files) (first second : List CopyEntry) :
    σ.run (first ++ second) = (σ.run first).run second := List.foldl_append

theorem run_cons (σ : Files) (e : CopyEntry) (entries : List CopyEntry) :
    σ.run (e :: entries) = (σ.write e).run entries := rfl

theorem run_of_free (σ : Files) {entries : List CopyEntry} (free : ∀ e ∈ entries, e.destination ≠ path) :
    σ.run entries path = σ path := by
  induction entries generalizing σ with
  | nil => rfl
  | cons e rest ih =>
    obtain ⟨other, others⟩ := List.forall_mem_cons.mp free
    rw [run_cons, ih _ others, write, if_neg (Ne.symm other)]

end Files

namespace CopyEntry

-- An entry with no later one for its destination.
def IsLast (entries : List CopyEntry) (e : CopyEntry) : Prop :=
  ∃ before after, entries = before ++ e :: after ∧ ∀ x ∈ after, x.destination ≠ e.destination

-- An entry that stands there for the first time, and after which its destination gets repeats only.
def IsNewest (entries : List CopyEntry) (e : CopyEntry) : Prop :=
  ∃ before after, entries = before ++ e :: after ∧ e ∉ before ∧
    ∀ x ∈ after, x.destination = e.destination → x ∈ before ∨ x = e

theorem run_of_isLast (σ : Files) (last : IsLast entries e) :
    σ.run entries e.destination = some e.sources := by
  obtain ⟨before, after, rfl, others⟩ := last
  rw [Files.run_append, Files.run_cons, Files.run_of_free _ others, Files.write, if_pos rfl]

theorem exists_isLast {entries : List CopyEntry} (found : ∃ e ∈ entries, e.destination = path) :
    ∃ e, IsLast entries e ∧ e.destination = path := by
  cases told : entries.reverse.find? fun e => e.destination = path with
  | none =>
    obtain ⟨e, member, same⟩ := found
    exact absurd (by simpa using same) (List.find?_eq_none.mp told e (List.mem_reverse.mpr member))
  | some e =>
    obtain ⟨same, after, before, split, others⟩ := List.find?_eq_some_iff_append.mp told
    have destination : e.destination = path := of_decide_eq_true same
    refine ⟨e, ⟨before.reverse, after.reverse, ?_, fun x member => ?_⟩, destination⟩
    · rw [← List.reverse_reverse entries, split, List.reverse_append, List.reverse_cons,
        List.append_assoc, List.singleton_append]
    · rw [destination]
      simpa using others x (List.mem_reverse.mp member)

-- What dropping repeats leaves after the first occurrence of an entry.
theorem eraseDups_first {e : CopyEntry} {before : List CopyEntry} (fresh : e ∉ before)
    (after : List CopyEntry) : ∃ rest, (before ++ e :: after).eraseDups = before.eraseDups ++ e :: rest ∧
      ∀ x, x ∈ rest ↔ x ∈ after ∧ x ∉ before ∧ x ≠ e := by
  have kept : (e :: after).removeAll before = e :: after.removeAll before :=
    List.filter_cons_of_pos (by simpa using fresh)
  refine ⟨((after.removeAll before).filter fun x => !x == e).eraseDups, ?_, ?_⟩
  · rw [List.eraseDups_append, kept, List.eraseDups_cons]
  · intro x
    simp [List.mem_eraseDups, List.removeAll, and_comm]

-- Repeats are dropped, so what is left as the last entry for a destination is the newest one there.
theorem isLast_eraseDups_iff : IsLast entries.eraseDups e ↔ IsNewest entries e := by
  constructor
  · rintro ⟨front, back, split, others⟩
    have member : e ∈ entries := List.mem_eraseDups.mp (by simp [split])
    obtain ⟨before, after, rfl, fresh⟩ := List.eq_append_cons_of_mem member
    obtain ⟨rest, erased, left⟩ := eraseDups_first fresh after
    have once : e ∉ rest := fun again => ((left e).mp again).2.2 rfl
    obtain ⟨-, -, rfl⟩ := (List.append_cons_inj_of_notMem (mt List.mem_eraseDups.mp fresh) once).mp
      (erased.symm.trans split)
    refine ⟨before, after, rfl, fresh, fun x later same => ?_⟩
    by_contra new
    obtain ⟨unseen, different⟩ := not_or.mp new
    exact others x ((left x).mpr ⟨later, unseen, different⟩) same
  · rintro ⟨before, after, rfl, fresh, repeats⟩
    obtain ⟨rest, erased, left⟩ := eraseDups_first fresh after
    refine ⟨before.eraseDups, rest, erased, fun x member same => ?_⟩
    obtain ⟨later, unseen, different⟩ := (left x).mp member
    exact (repeats x later same).elim unseen different

theorem run_eraseDups_iff (entries : List CopyEntry) :
    (∀ start : Files, start.run entries.eraseDups = start.run entries) ↔
      ∀ e, IsLast entries e → IsNewest entries e := by
  constructor
  · intro same e last
    have member : e ∈ entries.eraseDups := by
      obtain ⟨before, after, split, -⟩ := last
      exact List.mem_eraseDups.mpr (by simp [split])
    obtain ⟨n, newest, destination⟩ := exists_isLast ⟨e, member, rfl⟩
    have value := congrFun (same fun _ => none) e.destination
    rw [run_of_isLast _ last, ← destination, run_of_isLast _ newest, Option.some.injEq] at value
    have equal : n = e := by
      cases n
      cases e
      cases value
      cases destination
      rfl
    exact isLast_eraseDups_iff.mp (equal ▸ newest)
  · intro settled start
    funext path
    by_cases found : ∃ e ∈ entries, e.destination = path
    · obtain ⟨e, last, rfl⟩ := exists_isLast found
      rw [run_of_isLast start last, run_of_isLast start (isLast_eraseDups_iff.mpr (settled e last))]
    · have free : ∀ e ∈ entries, e.destination ≠ path := fun e member same => found ⟨e, member, same⟩
      have left : ∀ e ∈ entries.eraseDups, e.destination ≠ path :=
        fun e member => free e (List.mem_eraseDups.mp member)
      rw [Files.run_of_free start free, Files.run_of_free start left]

end CopyEntry

namespace Instruction

theorem mergeRun_copies {cs : List Copy} (run : IsRun (cs.map .copy)) :
    ∃ merged, (mergeRun (cs.map .copy)).result = .ok (.copy merged) ∧
      (cs = [merged] ∨ 1 < cs.length ∧ merged.entries = (cs.flatMap (·.entries)).eraseDups) := by
  match cs with
  | [] => exact absurd rfl run.ne_nil
  | [c] => exact ⟨c, rfl, .inl rfl⟩
  | first :: second :: rest =>
    have same : ∀ c ∈ second :: rest, c.source = first.source ∧ c.owner = first.owner := by
      intro c member
      have joined := (List.pairwise_cons.mp run.pairwise).1 (.copy c) (List.mem_map_of_mem member)
      cases joins_iff.mp joined.1 with
      | copies app source owner exclude => exact ⟨source.symm, owner.symm⟩
    have folded := mergeRun_of_merge (List.cons_ne_nil _ _) (merge_copies first.app same)
    refine ⟨_, congrArg Outcome.result folded, .inr ⟨?_, rfl⟩⟩
    simp

-- What merging a run of copies makes of the files, and when it is the same as without merging.
theorem merged_copies (items : List Instruction) (cs : List Copy) (run : cs.map .copy ∈ runs items) :
    ∃ merged, (mergeRun (cs.map .copy)).result = .ok (.copy merged) ∧
      ((∀ start : Files, start.run merged.entries = start.run (cs.flatMap (·.entries))) ↔
        cs.length = 1 ∨ ∀ e, CopyEntry.IsLast (cs.flatMap (·.entries)) e →
          CopyEntry.IsNewest (cs.flatMap (·.entries)) e) := by
  obtain ⟨merged, accepted, alone | ⟨several, entries⟩⟩ := mergeRun_copies (runs_isRun items _ run)
  · refine ⟨merged, accepted, ?_⟩
    simp [alone]
  · refine ⟨merged, accepted, ?_⟩
    rw [entries, CopyEntry.run_eraseDups_iff]
    exact (or_iff_right (Nat.ne_of_gt several)).symm

-- A copy that is made once more after one to another destination.
theorem merged_copies_repeated :
    let copy (source path : String) : Copy := { entries := [⟨[source], path⟩] }
    let cs : List Copy := [copy "b" "/opt/b", copy "a" "/opt/a", copy "b" "/opt/b"]
    cs.map .copy ∈ runs (cs.map .copy) ∧ ∃ merged, (mergeRun (cs.map .copy)).result = .ok (.copy merged) ∧
      ∀ start : Files, start.run merged.entries = start.run (cs.flatMap (·.entries)) := by
  intro copy cs
  have run : cs.map .copy ∈ runs (cs.map .copy) := by decide +kernel
  obtain ⟨merged, accepted, same⟩ := merged_copies (cs.map .copy) cs run
  refine ⟨run, merged, accepted, same.mpr (.inr ?_)⟩
  rintro e ⟨before, after, split, -⟩
  have member : e ∈ cs.flatMap (·.entries) := by rw [split]; simp
  have entries : e = ⟨["b"], "/opt/b"⟩ ∨ e = ⟨["a"], "/opt/a"⟩ ∨ e = ⟨["b"], "/opt/b"⟩ := by
    simpa [cs, copy] using member
  have newest : CopyEntry.IsNewest (cs.flatMap (·.entries)) ⟨["b"], "/opt/b"⟩ :=
    ⟨[], [⟨["a"], "/opt/a"⟩, ⟨["b"], "/opt/b"⟩], rfl, by simp, by simp⟩
  rcases entries with rfl | rfl | rfl
  · exact newest
  · exact ⟨[⟨["b"], "/opt/b"⟩], [⟨["b"], "/opt/b"⟩], rfl, by simp, by simp⟩
  · exact newest

-- A copy that is made once more after another one to its destination does not come last any more.
theorem merged_copies_differ :
    let copy (source path : String) : Copy := { entries := [⟨[source], path⟩] }
    let cs : List Copy := [copy "b" "/opt/b", copy "a" "/opt/b", copy "b" "/opt/b"]
    let merged : Copy := { entries := [⟨["b"], "/opt/b"⟩, ⟨["a"], "/opt/b"⟩] }
    let start : Files := fun _ => none
    cs.map .copy ∈ runs (cs.map .copy) ∧ (mergeRun (cs.map .copy)).result = .ok (.copy merged) ∧
      start.run merged.entries ≠ start.run (cs.flatMap (·.entries)) := by
  intro copy cs merged start
  refine ⟨by decide +kernel, by decide +kernel, ?_⟩
  intro same
  exact absurd (congrFun same "/opt/b") (by decide +kernel)

end Instruction

end ContainerRecipe
