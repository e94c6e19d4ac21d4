import ContainerRecipe.Proofs.Block.Configuration
import ContainerRecipe.Proofs.Script.Effects
import ContainerRecipe.Proofs.Script.OptionTables

namespace ContainerRecipe.Script

open Session ContainerRecipe.Script.Action

variable {o : Options} {setting : Setting} {s : Session} {index place : Nat} {arguments values : List Value}

theorem packageOptions_strict : Strict PackageRequest.layout where
  toSeparate := PackageRequest.layout_sound.toSeparate
  closed := rfl
  plain := by simp [PackageRequest.layout, Field.default, Text.Plain]

theorem packageOptions_tell (s : Session) : ∀ f ∈ PackageRequest.layout.fields, FieldTells s f := by
  simp only [PackageRequest.layout, List.forall_mem_cons]
  have texts := texts_telling (s := s)
  have flag := flag_telling (s := s)
  exact ⟨default_tells texts fun _ _ => rfl, default_tells (nullable_telling texts) fun _ _ => rfl,
    default_tells (nullable_telling texts) fun _ _ => rfl, default_tells texts fun _ _ => rfl,
    default_tells texts fun _ _ => rfl, default_tells texts fun _ _ => rfl, default_tells texts fun _ _ => rfl,
    default_tells texts fun _ _ => rfl, default_tells flag fun _ _ => rfl, default_tells flag fun _ _ => rfl,
    default_tells flag fun _ _ => rfl, default_tells (nullable_telling flag) fun _ _ => rfl, List.forall_mem_nil _⟩

-- A request has what the options give, each under its name.
def Session.Asks (s : Session) (t : Table) (r : PackageRequest) : Prop :=
  ∀ f ∈ PackageRequest.layout.fields, (t.get (.ofText f.name)).isNil = false →
    ∃ d, (f.name, d) ∈ PackageRequest.layout.writeFields r ∧ s.Denotes (t.get (.ofText f.name)) d

theorem asks_of_record (apart : (s.table place).Apart)
    (accepted : s.record PackageRequest.layout (.table place) = .ok r) : s.Asks (s.table place) r := by
  intro f known valued
  rcases packageOptions_strict.told apart accepted known with ⟨absent, -⟩ | ⟨-, bound, path, put, before, read, told⟩
  · rw [absent] at valued
    cases valued
  · obtain ⟨d, wrote, denotes⟩ := packageOptions_tell s f known bound path _ put before valued read
    exact ⟨d, Layout.mem_writeFields.mpr ⟨f, known, rfl, told.trans wrote⟩, denotes⟩

-- A call that goes through adds one block for the request that its argument is read as.
theorem step_packages
    (done : s.step setting (callMethod index .packages arguments) = (.ok values, next)) :
    ∃ r expansion, s.packageRequest (argument arguments 0) = .ok r ∧
      next.recipe = s.recipe.append index [.block (.packages r) expansion] := by
  obtain ⟨stage, effect, -, settled, told⟩ := callMethod_ok setting done
  obtain ⟨r, asked, placed⟩ := Outcome.bind_ok_iff.mp settled
  obtain ⟨expansion, -, rfl⟩ := blockEffect_ok placed
  exact ⟨r, expansion, asked, told⟩

theorem texts_of_items (read : s.commands (.table place) = .ok names) :
    (s.table place).itemsToGap.map Value.text? = names.map some := by
  refine map_eq_of_mapM read fun {v name} told => ?_
  unfold Value.asText at told
  split at told
  · rename_i found
    cases told
    exact found
  · cases told

-- Without a list, a string that names no option fails the call, and a call that goes through adds a block with
-- what each option gives. With a list, the block has the items for its names and is silent about the rest.
theorem packages_as_given (reachable : Reachable o s) (given : argument arguments 0 = .table place) :
    ((s.table place).length = 0 →
      (∀ content, ((s.table place).get (.bytes content)).isNil = false →
        (∀ f ∈ PackageRequest.layout.fields, content ≠ f.name.toUTF8) →
        ∃ fault, (s.step setting (callMethod index .packages arguments)).1 = .error fault) ∧
      ∀ values next, s.step setting (callMethod index .packages arguments) = (.ok values, next) →
        ∃ r expansion, next.recipe = s.recipe.append index [.block (.packages r) expansion] ∧
          s.Asks (s.table place) r) ∧
    (0 < (s.table place).length →
      ∀ values next, s.step setting (callMethod index .packages arguments) = (.ok values, next) →
        ∃ names expansion, (s.table place).itemsToGap.map Value.text? = names.map some ∧
          next.recipe = s.recipe.append index [.block (.packages { common := names }) expansion]) := by
  have apart := reachable.apart.table place
  have unlisted (listless : (s.table place).length = 0) :
      s.packageRequest (argument arguments 0) = s.record PackageRequest.layout (.table place) := by
    rw [given]
    exact if_pos listless
  refine ⟨fun listless => ⟨fun content valued unknown => ?_, fun values next done => ?_⟩,
    fun listed values next done => ?_⟩
  · cases result : s.step setting (callMethod index .packages arguments) with
    | mk told next =>
      cases told with
      | error fault => exact ⟨fault, rfl⟩
      | ok values =>
        obtain ⟨r, -, asked, -⟩ := step_packages result
        obtain ⟨f, known, same⟩ := packageOptions_strict.known apart (unlisted listless ▸ asked) valued
        exact absurd same (unknown f known)
  · obtain ⟨r, expansion, asked, told⟩ := step_packages done
    exact ⟨r, expansion, told, asks_of_record apart (unlisted listless ▸ asked)⟩
  · obtain ⟨r, expansion, asked, told⟩ := step_packages done
    rw [given] at asked
    unfold packageRequest at asked
    dsimp only at asked
    rw [if_neg (Nat.ne_of_gt listed)] at asked
    cases read : s.commands (.table place) with
    | error fault => simp [read, bind, Except.bind] at asked
    | ok names =>
      simp only [read, bind, Except.bind, pure, Except.pure, Except.ok.injEq] at asked
      subst asked
      exact ⟨names, expansion, texts_of_items read, told⟩

-- Names for one family in a table without a list, and one name in a list.
theorem packages_as_given_each :
    let named := stocked [] [("apt", .table [.text "git"] [])]
    let listed := stocked [.text "wget"] []
    (∃ r expansion, (named.step {} (callMethod 0 .packages [.table 13])).2.recipe =
      named.recipe.append 0 [.block (.packages r) expansion] ∧ named.Asks (named.table 13) r) ∧
    ∃ names expansion, (listed.table 12).itemsToGap.map Value.text? = names.map some ∧
      (listed.step {} (callMethod 0 .packages [.table 12])).2.recipe =
        listed.recipe.append 0 [.block (.packages { common := names }) expansion] := by
  intro named listed
  constructor
  · obtain ⟨values, done⟩ := step_of_isOk {} named (x := callMethod 0 .packages [.table 13]) (by decide +kernel)
    have listless : (named.table 13).length = 0 := by decide +kernel
    exact ((packages_as_given (stocked_reachable _ _) rfl).1 listless).2 values _ done
  · obtain ⟨values, done⟩ := step_of_isOk {} listed (x := callMethod 0 .packages [.table 12]) (by decide +kernel)
    have filled : 0 < (listed.table 12).length := by decide +kernel
    exact (packages_as_given (stocked_reachable _ _) rfl).2 filled values _ done

-- A name in a list, and beside it an option that there is none of. The call goes through.
theorem packages_overlooked :
    let s := stocked [.text "wget"] [("apt_ppa", .table [.text "ppa:x/y"] [])]
    Reachable {} s ∧ ((s.table 13).get (.ofText "apt_ppa")).isNil = false ∧
      (∀ f ∈ PackageRequest.layout.fields, f.name ≠ "apt_ppa") ∧
      (s.step {} (callMethod 0 .packages [.table 13])).1.isOk = true := by
  intro s
  exact ⟨stocked_reachable _ _, by decide +kernel, by decide, by decide +kernel⟩

end ContainerRecipe.Script
