import ContainerRecipe.Proofs.Bindings
import ContainerRecipe.Proofs.Block.Refusal
import ContainerRecipe.Proofs.Platform.Naming

namespace ContainerRecipe

-- A variable that leads to places below a directory and, where it is a list, to those it held before.
def LeadsBelow (directory name value : String) : Prop :=
  ∃ places, places ≠ [] ∧ (∀ place ∈ places, Path.Below directory place) ∧
    (value = ":".intercalate places ∨ value = ":".intercalate (places ++ ["$" ++ name]))

namespace Nvhpc

-- The releases for two architectures lie in different directories, and neither lies in the other.
theorem below_releaseRoot_iff (n : Nvhpc) (b t : Target) (directory : String) :
    Path.Below (n.releaseRoot b) (n.releaseRoot t ++ directory) ↔
      t.architecture = b.architecture ∧ Path.Below "" directory := by
  have roots (same : t.architecture = b.architecture) : n.releaseRoot t = n.releaseRoot b := by
    unfold releaseRoot
    rw [same]
  constructor
  · intro below
    have architectures : t.architecture = b.architecture := by
      obtain ⟨rest, spelled, -⟩ := below
      unfold releaseRoot at spelled
      simp only [String.append_assoc, String.append_right_inj] at spelled
      -- What follows the common beginning has its first slash behind the architecture.
      have cut : ∀ (a : Architecture) (tail : String),
          Text.cutFirst? '/' (a.text ++ ("/" ++ tail)).toList = some (a.text.toList, tail.toList) := by
        intro a tail
        rw [String.toList_append, String.toList_append]
        exact Text.cutFirst?_of_parts a.slash_not_mem_text _
      have cuts := congrArg (fun text => Text.cutFirst? '/' text.toList) spelled
      simp only [cut, Option.some.injEq, Prod.mk.injEq, String.toList_inj] at cuts
      exact Architecture.text_injective cuts.1
    rw [roots architectures, Path.below_self_append_iff] at below
    exact ⟨architectures, below⟩
  · rintro ⟨same, below⟩
    rwa [roots same, Path.below_self_append_iff]

theorem searchPath_leadsBelow {directories : List String} (some : directories ≠ [])
    (inside : ∀ directory ∈ directories, Path.Below "" directory) (root name : String) :
    LeadsBelow root name (searchPath root directories name) := by
  refine ⟨directories.map (root ++ ·), mt List.map_eq_nil_iff.mp some, fun place member => ?_, .inr rfl⟩
  obtain ⟨directory, listed, rfl⟩ := List.mem_map.mp member
  exact (Path.below_self_append_iff root directory).mpr (inside directory listed)

theorem commandDirectories_inside (n : Nvhpc) : ∀ directory ∈ n.commandDirectories, Path.Below "" directory := by
  unfold commandDirectories
  generalize n.mpi = mpi, n.extendedEnvironment = extended
  revert mpi extended
  decide

theorem libraryDirectories_inside (n : Nvhpc) : ∀ directory ∈ n.libraryDirectories, Path.Below "" directory := by
  unfold libraryDirectories
  generalize n.mpi = mpi, n.extendedEnvironment = extended
  revert mpi extended
  decide

theorem cudaHome_below (n : Nvhpc) (t : Target) : Path.Below (n.releaseRoot t) (n.releaseRoot t ++ "/cuda") :=
  (Path.below_self_append_iff _ _).mpr (by decide)

theorem environmentBindings_leadsBelow {n : Nvhpc} {name value : String}
    (member : (name, value) ∈ (n.environmentBindings t).entries) : LeadsBelow (n.releaseRoot t) name value := by
  have listed := Bindings.mem_ofList member
  rcases List.mem_append.mp listed with basic | extended
  · simp only [List.mem_cons, Prod.mk.injEq, List.not_mem_nil, or_false] at basic
    obtain ⟨rfl, rfl⟩ | ⟨rfl, rfl⟩ | ⟨rfl, rfl⟩ := basic
    · exact searchPath_leadsBelow (by simp [commandDirectories]) n.commandDirectories_inside _ _
    · exact searchPath_leadsBelow (by simp [libraryDirectories]) n.libraryDirectories_inside _ _
    · exact searchPath_leadsBelow (List.cons_ne_nil _ _) (by decide) _ _
  · split at extended
    · simp only [List.mem_cons, Prod.mk.injEq, List.not_mem_nil, or_false] at extended
      obtain ⟨rfl, rfl⟩ | ⟨rfl, rfl⟩ := extended
      · exact ⟨[n.releaseRoot t ++ "/cuda"], List.cons_ne_nil _ _, List.forall_mem_singleton.mpr (n.cudaHome_below t),
          .inl String.intercalate_singleton.symm⟩
      · exact searchPath_leadsBelow (List.cons_ne_nil _ _) (by decide) _ _
    · cases extended

theorem bindings_of_mem_install {n : Nvhpc} (installed : (n.install t).result = .ok ps)
    (member : .environment e ∈ ps) : e.bindings = n.environmentBindings t := by
  obtain ⟨a, rfl⟩ := install_ok installed
  rcases List.mem_append.mp member with before | last
  · rcases List.mem_append.mp before with packages | commands
    · obtain ⟨s, never⟩ := PackageRequest.install_shell _ t _ packages
      cases never
    · cases List.mem_singleton.mp commands
  · split at last
    · cases List.mem_singleton.mp last
      rfl
    · cases last

-- One thing is copied into the target stage, and the directory it is copied to is where it comes from.
theorem copy_mem_runtime_iff (n : Nvhpc) (t : Target) (source : String) (c : Copy) :
    .copy c ∈ (n.runtime t source).value ↔
      c = { entries := [⟨[n.releaseRoot t ++ "/REDIST/compilers/lib/*"], n.releaseRoot t ++ "/compilers/lib/"⟩]
            source := some source } := by
  have packages : .copy c ∉ (PackageRequest.install { common := runtimePackages t.packageFamily } t).value := by
    intro member
    obtain ⟨s, never⟩ := PackageRequest.install_shell _ t _ member
    cases never
  unfold runtime
  simp only [Logged.value_bind, Logged.value_pure]
  simp [packages]

theorem default_installed : ∃ ps, (({ eula := true } : Nvhpc).install (.ofFormat .docker)).result = .ok ps := by
  refine Block.install_ok_iff (b := .nvhpc { eula := true }).mpr fun e refused => ?_
  cases refused with
  | license _ declined => cases declined
  | release _ _ _ malformed => exact malformed (by decide)
  | cuda _ _ _ _ single => cases single
  | mirror _ _ given => cases given

-- The build stage refers to the directory that its release has on its architecture. What the target stage
-- copies is one path, which lies in the directory of the release on its own architecture, so it lies in the
-- former exactly if the architectures are the same.
theorem runtime_copies_installed {n : Nvhpc} {b : Target} {ps : List Instruction}
    (installed : (n.install b).result = .ok ps) (t : Target) (source : String) :
    (∀ e, .environment e ∈ ps → ∀ binding ∈ e.bindings.entries,
        LeadsBelow (n.releaseRoot b) binding.1 binding.2) ∧
      (∃ home, (n.toolchain b).get? .cudaHome = some home ∧ Path.Below (n.releaseRoot b) home) ∧
      ∃ c path, (∀ d, .copy d ∈ (n.runtime t source).value ↔ d = c) ∧ c.source = some source ∧
        c.entries.flatMap (·.sources) = [path] ∧ Path.Below (n.releaseRoot t) path ∧
        (Path.Below (n.releaseRoot b) path ↔ t.architecture = b.architecture) := by
  have libraries : Path.Below "" "/REDIST/compilers/lib/*" := by decide
  refine ⟨fun e member binding bound => ?bound, ⟨_, rfl, n.cudaHome_below b⟩, _, _,
    n.copy_mem_runtime_iff t source, rfl, rfl, ?own, ?other⟩
  case bound =>
    rw [bindings_of_mem_install installed member] at bound
    exact environmentBindings_leadsBelow bound
  case own => exact (Path.below_self_append_iff _ _).mpr libraries
  case other =>
    rw [below_releaseRoot_iff]
    exact and_iff_left libraries

theorem runtime_copies_installed_default : ∃ ps,
    (({ eula := true } : Nvhpc).install (.ofFormat .docker)).result = .ok ps ∧
      ∃ c path, .copy c ∈ (({ eula := true } : Nvhpc).runtime (.ofFormat .singularity) "build").value ∧
        c.source = some "build" ∧ c.entries.flatMap (·.sources) = [path] ∧
        Path.Below (({ eula := true } : Nvhpc).releaseRoot (.ofFormat .docker)) path := by
  obtain ⟨ps, installed⟩ := default_installed
  obtain ⟨-, -, c, path, copied, source, paths, -, below⟩ :=
    runtime_copies_installed installed (.ofFormat .singularity) "build"
  exact ⟨ps, installed, c, path, (copied c).mpr rfl, source, paths, below.mpr rfl⟩

-- A stage for another architecture copies from a directory that the build stage has not installed anything in.
theorem runtime_copies_uninstalled :
    (∃ ps, (({ eula := true } : Nvhpc).install (.ofFormat .docker)).result = .ok ps) ∧
      (({ eula := true } : Nvhpc).toolchain (.ofFormat .docker)).get? .cudaHome =
        some "/opt/nvidia/hpc_sdk/Linux_x86_64/24.1/cuda" ∧
      ∃ c path, .copy c ∈ (({ eula := true } : Nvhpc).runtime
          { Target.ofFormat .docker with architecture := .aarch64 } "build").value ∧
        c.entries.flatMap (·.sources) = [path] ∧
        path = "/opt/nvidia/hpc_sdk/Linux_aarch64/24.1/REDIST/compilers/lib/*" ∧
        ¬ Path.Below "/opt/nvidia/hpc_sdk/Linux_x86_64/24.1" path :=
  ⟨default_installed, by decide, _, _, (copy_mem_runtime_iff _ _ _ _).mpr rfl, rfl, by decide, by decide⟩

end Nvhpc

end ContainerRecipe
