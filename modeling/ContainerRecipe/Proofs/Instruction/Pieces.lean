import ContainerRecipe.Proofs.Instruction.Merged
import ContainerRecipe.Proofs.Instruction.Unions

namespace ContainerRecipe

-- Induction along the dropping of repeats: from the other members, without repeats of the first one.
theorem firstSeen_induction {α : Type} [BEq α] {P : List α → Prop} (nil : P [])
    (cons : ∀ a as, P (as.filter fun b => !b == a) → P (a :: as)) : ∀ as, P as
  | [] => nil
  | a :: as => cons a as (firstSeen_induction nil cons (as.filter fun b => !b == a))
termination_by as => as.length
decreasing_by exact Nat.lt_succ_of_le (List.length_filter_le _ _)

section

variable {α : Type} [BEq α] [LawfulBEq α]

theorem eraseDups_filter (keep : α → Bool) (as : List α) :
    (as.filter keep).eraseDups = as.eraseDups.filter keep := by
  induction as using firstSeen_induction with
  | nil => rfl
  | cons a as ih =>
    rw [List.eraseDups_cons, List.filter_cons, List.filter_cons, ← ih]
    split
    · rw [List.eraseDups_cons, List.filter_comm]
    · rename_i dropped
      congr 1
      rw [List.filter_filter]
      refine List.filter_congr fun b _ => ?_
      by_cases same : b = a
      · simpa [same] using dropped
      · simp [same]

theorem eraseDups_eraseDups (as : List α) : as.eraseDups.eraseDups = as.eraseDups := by
  induction as using firstSeen_induction with
  | nil => rfl
  | cons a as ih =>
    rw [List.eraseDups_cons, List.eraseDups_cons, ← eraseDups_filter, List.filter_filter]
    simp only [Bool.and_self, ih]

-- What is seen first in two lists is what is seen first in what each of them leaves.
theorem eraseDups_append_eraseDups (as bs : List α) :
    (as.eraseDups ++ bs.eraseDups).eraseDups = (as ++ bs).eraseDups := by
  have unseen : bs.eraseDups.removeAll as.eraseDups = (bs.removeAll as).eraseDups := by
    unfold List.removeAll
    rw [eraseDups_filter]
    refine List.filter_congr fun b _ => ?_
    simp [List.mem_eraseDups]
  rw [List.eraseDups_append, List.eraseDups_append, eraseDups_eraseDups, unseen, eraseDups_eraseDups]

end

namespace Instruction

-- Merges two lists each by itself, for the applications `a` and `b`, and what they become for `c`.
def mergePieces (xs ys : List Instruction) (a b c : Option String) : Outcome MergeError Instruction := do
  let p ← merge xs a
  let q ← merge ys b
  merge [p, q] c

-- What is built of all that is picked has the warnings of both lists.
theorem merge_append_of {x y : Instruction} {pick : Instruction → Except Warning β}
    {build other : List β → Option String → Instruction} (left : MergesBy x pick build)
    (right : MergesBy y pick other)
    (again : ∀ these those, merge [build these a, other those b] c = pure (build (these ++ those) c)) :
    merge (x :: xs ++ y :: ys) c = mergePieces (x :: xs) (y :: ys) a b c := by
  have picked : sift pick (x :: xs ++ y :: ys) =
      ⟨(sift pick (x :: xs)).value ++ (sift pick (y :: ys)).value,
        (sift pick (x :: xs)).warnings ++ (sift pick (y :: ys)).warnings⟩ := by
    simp only [sift, List.filterMap_append]
  rw [mergePieces, List.cons_append, left.merge_eq, ← List.cons_append, picked, left.merge_eq,
    right.merge_eq, Outcome.bind_of_ok rfl, Outcome.bind_of_ok rfl, again, Outcome.warnings_pure,
    List.append_nil]
  rfl

theorem pickCopy_congr {f g : Copy} (source : f.source = g.source) (owner : f.owner = g.owner) :
    pickCopy f = pickCopy g := by
  funext p
  cases p <;> simp only [pickCopy, source, owner]

section

variable {a b c : Option String} {xs ys : List Instruction}

theorem merge_append_shells (x y : Shell) :
    merge (.shell x :: xs ++ .shell y :: ys) c = mergePieces (.shell x :: xs) (.shell y :: ys) a b c := by
  refine merge_append_of (shell_mergesBy x) (shell_mergesBy y) fun these those => ?_
  refine (merge_shells c _ [_]).trans ?_
  simp

theorem merge_append_copies {x y : Copy} (source : x.source = y.source) (owner : x.owner = y.owner) :
    merge (.copy x :: xs ++ .copy y :: ys) c = mergePieces (.copy x :: xs) (.copy y :: ys) a b c := by
  have right := copy_mergesBy y
  rw [← pickCopy_congr source owner] at right
  refine merge_append_of (copy_mergesBy x) right fun these those => ?_
  refine (@merge_copies c _ [_] (by simp [source, owner])).trans ?_
  simp [eraseDups_append_eraseDups]

theorem merge_append_environments (x y : Environment) :
    merge (.environment x :: xs ++ .environment y :: ys) c =
      mergePieces (.environment x :: xs) (.environment y :: ys) a b c := by
  refine merge_append_of (environment_mergesBy x) (environment_mergesBy y) fun these those => ?_
  refine (merge_environments c _ [_]).trans ?_
  simp [Bindings.unionAll_pair, Bindings.unionAll_append]

theorem merge_append_labels (x y : Labels) :
    merge (.labels x :: xs ++ .labels y :: ys) c = mergePieces (.labels x :: xs) (.labels y :: ys) a b c := by
  refine merge_append_of (labels_mergesBy x) (labels_mergesBy y) fun these those => ?_
  refine (merge_labels c _ [_]).trans ?_
  simp [Bindings.unionAll_pair, Bindings.unionAll_append]

theorem merge_append_arguments (x y : Arguments) :
    merge (.arguments x :: xs ++ .arguments y :: ys) c =
      mergePieces (.arguments x :: xs) (.arguments y :: ys) a b c := by
  refine merge_append_of (arguments_mergesBy x) (arguments_mergesBy y) fun these those => ?_
  refine (merge_arguments c _ [_]).trans ?_
  simp [Bindings.unionAll_pair, Bindings.unionAll_append]

theorem merge_append_runscripts (x y : Runscript) :
    merge (.runscript x :: xs ++ .runscript y :: ys) c =
      mergePieces (.runscript x :: xs) (.runscript y :: ys) a b c := by
  refine merge_append_of (runscript_mergesBy x) (runscript_mergesBy y) fun these those => ?_
  refine (merge_runscripts c _ [_]).trans ?_
  simp [eraseDups_append_eraseDups]

end

theorem merge_ok {first : Instruction} (mergeable : first.mergeable = true) (rest : List Instruction)
    (app : Option String) : ∃ merged, (merge (first :: rest) app).result = .ok merged := by
  cases first with
  | shell s => exact (shell_mergesBy s).ok rest app
  | copy c => exact (copy_mergesBy c).ok rest app
  | environment e => exact (environment_mergesBy e).ok rest app
  | labels l => exact (labels_mergesBy l).ok rest app
  | comment c => exact (comment_mergesBy c).ok rest app
  | arguments a => exact (arguments_mergesBy a).ok rest app
  | runscript r => exact (runscript_mergesBy r).ok rest app
  | baseImage | verbatim | workdir | user | fragment => cases mergeable

-- Merging can be done in pieces, whatever other instructions stand in between and whatever applications
-- the pieces are merged for.
theorem merge_append {xs ys : List Instruction} {x y : Instruction} (left : xs.head? = some x)
    (right : ys.head? = some y) (mergeable : x.mergeable = true) (separable : x.kind ≠ "comment")
    (kinds : x.kind = y.kind)
    (origins : ∀ f g, x = .copy f → y = .copy g → f.source = g.source ∧ f.owner = g.owner)
    (a b c : Option String) :
    merge (xs ++ ys) c = mergePieces xs ys a b c ∧ ∃ merged, (merge (xs ++ ys) c).result = .ok merged := by
  obtain ⟨xs, rfl⟩ := List.head?_eq_some_iff.mp left
  obtain ⟨ys, rfl⟩ := List.head?_eq_some_iff.mp right
  refine ⟨?_, merge_ok mergeable (xs ++ y :: ys) c⟩
  cases x with
  | shell x =>
    cases y with
    | shell y => exact merge_append_shells x y
    | _ => simp [kind] at kinds
  | copy x =>
    cases y with
    | copy y =>
      obtain ⟨source, owner⟩ := origins x y rfl rfl
      exact merge_append_copies source owner
    | _ => simp [kind] at kinds
  | environment x =>
    cases y with
    | environment y => exact merge_append_environments x y
    | _ => simp [kind] at kinds
  | labels x =>
    cases y with
    | labels y => exact merge_append_labels x y
    | _ => simp [kind] at kinds
  | comment => exact absurd rfl separable
  | arguments x =>
    cases y with
    | arguments y => exact merge_append_arguments x y
    | _ => simp [kind] at kinds
  | runscript x =>
    cases y with
    | runscript y => exact merge_append_runscripts x y
    | _ => simp [kind] at kinds
  | baseImage | verbatim | workdir | user | fragment => cases mergeable

-- Copies for an owner, with ones for another owner and a user in between, and an entry that is repeated.
theorem merge_append_owned :
    let owned (owner source path : String) : Instruction :=
      .copy { entries := [⟨[source], path⟩], owner := some owner }
    let xs := [owned "app" "a" "/opt/a", .user ⟨"root"⟩, owned "root" "b" "/opt/b"]
    let ys := [owned "app" "c" "/opt/c", owned "app" "a" "/opt/a"]
    let merged : Instruction := .copy
      { entries := [⟨["a"], "/opt/a"⟩, ⟨["c"], "/opt/c"⟩], owner := some "app", app := some "web" }
    merge (xs ++ ys) (some "web") = mergePieces xs ys none (some "db") (some "web") ∧
      (mergePieces xs ys none (some "db") (some "web")).result = .ok merged := by
  intro owned xs ys merged
  have origins : ∀ f g, owned "app" "a" "/opt/a" = .copy f → owned "app" "c" "/opt/c" = .copy g →
      f.source = g.source ∧ f.owner = g.owner := by
    rintro f g ⟨⟩ ⟨⟩
    exact ⟨rfl, rfl⟩
  obtain ⟨pieces, -⟩ := @merge_append xs ys _ _ rfl rfl rfl (by decide) rfl origins
    none (some "db") (some "web")
  exact ⟨pieces, by decide +kernel⟩

end Instruction

end ContainerRecipe
