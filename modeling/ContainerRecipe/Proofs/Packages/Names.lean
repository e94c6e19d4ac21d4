import ContainerRecipe.Packages
import Mathlib.Data.List.Destutter
import Mathlib.Data.List.Permutation
import Mathlib.Data.List.Sort
import Mathlib.Data.String.Basic

namespace ContainerRecipe

section

variable {α : Type} [DecidableEq α]

-- The loop keeps what it has passed in reverse; behind it stands what it would give by itself.
theorem eraseRepsBy_loop (kept : α) (rest passed : List α) :
    List.eraseRepsBy.loop (· == ·) kept rest passed = passed.reverse ++ rest.destutter' (· ≠ ·) kept := by
  induction rest generalizing kept passed with
  | nil => simp [List.eraseRepsBy.loop]
  | cons next others ih =>
    rw [List.eraseRepsBy.loop, List.destutter'_cons]
    by_cases same : kept = next
    · subst same
      simp [ih]
    · have different : (kept == next) = false := beq_eq_false_iff_ne.mpr same
      simp [same, different, ih]

theorem eraseReps_eq_destutter (xs : List α) : xs.eraseReps = xs.destutter (· ≠ ·) := by
  cases xs with
  | nil => rfl
  | cons first rest => exact eraseRepsBy_loop first rest []

-- Among names in order, equal ones are neighbours.
theorem eraseReps_of_sorted [LinearOrder α] {xs : List α} (sorted : xs.Pairwise (· ≤ ·)) :
    xs.eraseReps = xs.dedup := by
  rw [eraseReps_eq_destutter, sorted.destutter_eq_dedup]

end

namespace PackageRequest

-- The names that a request gives for one family alone.
def own (r : PackageRequest) : PackageFamily → Option (List String)
  | .deb => r.apt
  | .rpm => r.yum

theorem named_eq (r : PackageRequest) (family : PackageFamily) : r.named family = (r.own family).getD r.common := by
  cases family <;> rfl

theorem packages_eq_dedup (r : PackageRequest) (family : PackageFamily) : r.packages family =
    (((r.named family).filter fun name => !Text.isBlankText name).mergeSort (· ≤ ·)).dedup :=
  eraseReps_of_sorted (List.pairwise_mergeSort' _ _)

theorem mem_packages_iff {r : PackageRequest} {family : PackageFamily} {name : String} :
    name ∈ r.packages family ↔ name ∈ r.named family ∧ Text.isBlankText name = false := by
  rw [packages_eq_dedup, List.mem_dedup, List.mem_mergeSort, List.mem_filter, Bool.not_eq_true']

theorem packages_ascending (r : PackageRequest) (family : PackageFamily) :
    (r.packages family).Pairwise (· < ·) := by
  rw [packages_eq_dedup]
  have sorted := (List.pairwise_mergeSort' (· ≤ ·) ((r.named family).filter fun name => !Text.isBlankText name))
  have ordered := (sorted.sublist (List.dedup_sublist _)).and (List.nodup_dedup _)
  exact ordered.imp fun ⟨before, different⟩ => lt_of_le_of_ne before different

end PackageRequest

-- The same names, whatever their order, and however often they and blank ones are given.
def SameNames (names others : List String) : Prop :=
  ∀ name, Text.isBlankText name = false → (name ∈ names ↔ name ∈ others)

theorem SameNames.getD {own own' : Option (List String)} (owned : Option.Rel SameNames own own')
    (common : SameNames names others) : SameNames (own.getD names) (own'.getD others) := by
  cases owned with
  | none => exact common
  | some same => exact same

namespace PackageRequest

-- Requests that differ in the order, the repeats and the blank entries of their lists of names at most.
inductive Alike (r : PackageRequest) : PackageRequest → Prop where
  | lists (common : SameNames r.common names) (apt : Option.Rel SameNames r.apt debNames)
      (yum : Option.Rel SameNames r.yum rpmNames) :
      Alike r { r with common := names, apt := debNames, yum := rpmNames }

theorem packages_eq_iff {r other : PackageRequest} {family : PackageFamily} :
    r.packages family = other.packages family ↔ SameNames (r.named family) (other.named family) := by
  constructor
  · intro same name given
    have both : name ∈ r.packages family ↔ name ∈ other.packages family := by rw [same]
    simpa [mem_packages_iff, given] using both
  · intro same
    refine List.Pairwise.eq_of_mem_iff (r.packages_ascending family) (other.packages_ascending family) fun name => ?_
    rw [mem_packages_iff, mem_packages_iff]
    exact and_congr_left (same name)

theorem Alike.named {r other : PackageRequest} (alike : r.Alike other) (family : PackageFamily) :
    SameNames (r.named family) (other.named family) := by
  rw [named_eq, named_eq]
  cases alike with
  | lists common apt yum =>
    cases family with
    | deb => exact .getD apt common
    | rpm => exact .getD yum common

-- The commands hold nothing else of the lists than the packages.
theorem Alike.commands {r other : PackageRequest} (alike : r.Alike other) (t : Target) :
    r.commands t = other.commands t := by
  have packages : ∀ family, r.packages family = other.packages family :=
    fun family => packages_eq_iff.mpr (alike.named family)
  cases alike with
  | lists =>
    unfold PackageRequest.commands
    cases t.packageFamily with
    | deb =>
      dsimp only
      unfold Apt.commands Apt.steps
      rw [packages .deb]
    | rpm =>
      dsimp only
      unfold Yum.commands Yum.steps
      rw [packages .rpm]
      rfl

-- What a request installs is a set of names: those of the family's own list, even if it is empty, or else the
-- common ones, each once and in order. A request with the same names installs the same, whichever package
-- manager the target has.
theorem packages_of_names (r : PackageRequest) :
    (∀ family, (r.packages family).Pairwise (· < ·) ∧ ∀ name, name ∈ r.packages family ↔
      name ∈ (r.own family).getD r.common ∧ Text.isBlankText name = false) ∧
      ∀ other, r.Alike other → (∀ family, r.packages family = other.packages family) ∧
        ∀ t, r.install t = other.install t := by
  refine ⟨fun family => ⟨r.packages_ascending family, fun name => ?members⟩, fun other alike => ⟨?packages, ?install⟩⟩
  case members => rw [← named_eq, mem_packages_iff]
  case packages => exact fun family => packages_eq_iff.mpr (alike.named family)
  case install =>
    intro t
    unfold install
    rw [alike.commands t]

theorem packages_of_names_repeated :
    let r : PackageRequest := { common := ["make", "gcc"], apt := some [] }
    let other : PackageRequest := { common := ["gcc", "", "make", "gcc"], apt := some [" "] }
    r.Alike other ∧ other.packages .rpm = ["gcc", "make"] ∧ other.packages .deb = [] ∧
      ∀ t, r.install t = other.install t := by
  intro r other
  have common : SameNames r.common other.common := by
    intro name given
    have nonempty : name ≠ "" := by
      rintro rfl
      cases given
    simp [r, other, nonempty, or_comm]
  have alike : r.Alike other := by
    refine .lists common (.some fun name given => ?_) .none
    have solid : name ≠ " " := by
      rintro rfl
      exact absurd given (by decide)
    simp [solid]
  obtain ⟨-, same⟩ := packages_of_names r
  obtain ⟨-, install⟩ := same other alike
  exact ⟨alike, by cbv, by cbv, install⟩

end PackageRequest

end ContainerRecipe
