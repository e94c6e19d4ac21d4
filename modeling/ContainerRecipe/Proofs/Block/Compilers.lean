import ContainerRecipe.Proofs.Block.Refusal
import ContainerRecipe.Proofs.Packages.Names
import ContainerRecipe.Proofs.Packages.Order

namespace ContainerRecipe

def Instruction.shellCommands : Instruction → List String
  | .shell s => s.commands
  | _ => []

variable {t : Target} {r : PackageRequest}

-- A request for packages is never idle.
theorem PackageRequest.install_of_packages (some : r.packages t.packageFamily ≠ []) :
    (r.install t).value = [.shell { commands := (r.commands t).value }] := by
  have busy : (r.commands t).value ≠ [] := by
    unfold commands
    cases family : t.packageFamily with
    | deb =>
      rw [family] at some
      exact fun none => some (Apt.steps_eq_nil_iff.mp (List.map_eq_nil_iff.mp none)).1
    | rpm =>
      rw [family] at some
      exact fun none => some (Yum.steps_eq_nil_iff.mp (List.map_eq_nil_iff.mp none)).1
  have some : ((r.commands t).value).isEmpty = false := List.isEmpty_eq_false_iff.mpr busy
  simp only [install, Logged.value_bind, Logged.value_pure, some, Bool.false_eq_true, if_false]

namespace Gnu

inductive Language where
  | c
  | cxx
  | fortran

namespace Language

-- The variables that name the compiler of a language.
def toolVariables : Language → List ToolVariable
  | .c => [.cc]
  | .cxx => [.cxx]
  | .fortran => [.f77, .f90, .fc]

def command : Language → String
  | .c => "gcc"
  | .cxx => "g++"
  | .fortran => "gfortran"

-- The package of a compiler, in no series.
def package : PackageFamily → Language → String
  | .deb, language => language.command
  | .rpm, .c => "gcc"
  | .rpm, .cxx => "gcc-c++"
  | .rpm, .fortran => "gcc-gfortran"

end Language

def enabled (g : Gnu) : Language → Bool
  | .c => g.cc
  | .cxx => g.cxx
  | .fortran => g.fortran

-- The package of a compiler in the series that is asked for.
def packageOf (g : Gnu) (t : Target) (language : Language) : String :=
  match t.packageFamily, g.version with
  | family, none => language.package family
  | .deb, some version => language.package .deb ++ "-" ++ version
  | .rpm, some version => toolset t version ++ "-" ++ language.package .rpm

section

variable {g : Gnu} {t : Target} {language : Language}

theorem get?_isSome_iff {v : ToolVariable} (member : v ∈ language.toolVariables) :
    (g.toolchain.get? v).isSome ↔ g.enabled language = true := by
  cases language <;> simp only [Language.toolVariables, List.mem_cons, List.not_mem_nil, or_false] at member
  · subst member
    simp [toolchain, Toolchain.get?, enabled]
  · subst member
    simp [toolchain, Toolchain.get?, enabled]
  · rcases member with rfl | rfl | rfl <;> simp [toolchain, Toolchain.get?, enabled]

theorem get?_eq_command_iff {tool : String} : (∃ v, g.toolchain.get? v = some tool) ↔
    ∃ language, g.enabled language = true ∧ language.command = tool := by
  constructor
  · rintro ⟨v, named⟩
    cases v <;> simp [toolchain, Toolchain.get?] at named
    · exact ⟨.c, named⟩
    · exact ⟨.cxx, named⟩
    all_goals exact ⟨.fortran, named⟩
  · rintro ⟨language, on, rfl⟩
    cases language with
    | c => exact ⟨.cc, if_pos on⟩
    | cxx => exact ⟨.cxx, if_pos on⟩
    | fortran => exact ⟨.fc, if_pos on⟩

-- What is listed for each language that is enabled.
theorem mem_languages_iff {α : Type} {x : α} (f : Language → α) :
    (g.cc = true ∧ x = f .c ∨ g.cxx = true ∧ x = f .cxx ∨ g.fortran = true ∧ x = f .fortran) ↔
      ∃ language, g.enabled language = true ∧ f language = x := by
  constructor
  · rintro (⟨on, rfl⟩ | ⟨on, rfl⟩ | ⟨on, rfl⟩)
    · exact ⟨.c, on, rfl⟩
    · exact ⟨.cxx, on, rfl⟩
    · exact ⟨.fortran, on, rfl⟩
  · rintro ⟨language, on, rfl⟩
    cases language with
    | c => exact .inl ⟨on, rfl⟩
    | cxx => exact .inr (.inl ⟨on, rfl⟩)
    | fortran => exact .inr (.inr ⟨on, rfl⟩)

theorem mem_compilers_iff {tool : String} :
    tool ∈ g.compilers ↔ ∃ language, g.enabled language = true ∧ language.command = tool := by
  rw [← mem_languages_iff]
  simp only [compilers, Language.command, List.mem_append, List.mem_ite_nil_right, List.mem_singleton, or_assoc]
  exact or_left_comm

end

section

variable {g : Gnu} {t : Target}

theorem packageOf_begins (g : Gnu) (t : Target) (language : Language) :
    Text.Begins "g" (g.packageOf t language) ∨ Text.Begins "d" (g.packageOf t language) := by
  have plain : ∀ family, Text.Begins "g" (language.package family) := by
    intro family
    cases family <;> cases language <;> decide
  unfold packageOf
  split
  · exact .inl (plain _)
  · exact .inl (((plain _).append _).append _)
  · unfold toolset
    split
    · exact .inl (.append (.append (.append (by decide) _) _) _)
    · exact .inr (.append (.append (.append (by decide) _) _) _)

theorem named_request (g : Gnu) (t : Target) (name : String) : name ∈ (g.request t).named t.packageFamily ↔
    ∃ language, g.enabled language = true ∧ g.packageOf t language = name := by
  unfold request packageOf
  cases t.packageFamily with
  | deb =>
    show name ∈ g.debPackages ↔ _
    unfold debPackages
    cases g.version with
    | none => exact mem_compilers_iff
    | some version =>
      simp only [List.mem_map, mem_compilers_iff, exists_exists_and_eq_and, Language.package]
  | rpm =>
    show name ∈ g.rpmPackages t ↔ _
    unfold rpmPackages
    rw [← mem_languages_iff]
    cases g.version with
    | none => simp [Language.package]
    | some version => simp [Language.package, eq_comm (a := name)]

theorem packageOf_injective (g : Gnu) (t : Target) : Function.Injective (g.packageOf t) := by
  have plain : ∀ family, Function.Injective (Language.package family) := by
    intro family a b same
    cases family <;> cases a <;> cases b <;> first | rfl | exact absurd same (by decide)
  intro a b same
  unfold packageOf at same
  split at same
  · exact plain _ same
  · exact plain _ ((String.append_left_inj _).mp ((String.append_left_inj _).mp same))
  · exact plain _ ((String.append_right_inj _).mp same)

theorem packageOf_solid (g : Gnu) (t : Target) (language : Language) :
    Text.isBlankText (g.packageOf t language) = false := by
  have solid : ∀ {letter : String}, Text.isBlankText letter = false →
      Text.Begins letter (g.packageOf t language) → Text.isBlankText (g.packageOf t language) = false := by
    intro letter visible begins
    unfold Text.isBlankText at visible ⊢
    rw [List.all_eq_false] at visible ⊢
    obtain ⟨c, member, given⟩ := visible
    exact ⟨c, begins.subset member, given⟩
  exact (g.packageOf_begins t language).elim (solid (by decide)) (solid (by decide))

theorem mem_packages_request (g : Gnu) (t : Target) (name : String) :
    name ∈ (g.request t).packages t.packageFamily ↔
      ∃ language, g.enabled language = true ∧ g.packageOf t language = name := by
  rw [PackageRequest.mem_packages_iff, named_request]
  refine and_iff_left_of_imp ?_
  rintro ⟨language, -, rfl⟩
  exact g.packageOf_solid t language

theorem packageOf_mem_packages (g : Gnu) (t : Target) (language : Language) :
    g.packageOf t language ∈ (g.request t).packages t.packageFamily ↔ g.enabled language = true := by
  rw [mem_packages_request]
  constructor
  · rintro ⟨other, on, same⟩
    rwa [← g.packageOf_injective t same]
  · exact fun on => ⟨language, on, rfl⟩

end

section

variable {g : Gnu} {t : Target} {version : String}

theorem alternatives_perm (g : Gnu) : g.alternatives.Perm (g.compilers ++ if g.cc then ["gcov"] else []) :=
  List.mergeSort_perm _ _

theorem alternatives_nodup (g : Gnu) : g.alternatives.Nodup := by
  rw [g.alternatives_perm.nodup_iff]
  unfold compilers
  generalize g.cxx = cxx, g.cc = cc, g.fortran = fortran
  revert cxx cc fortran
  decide

theorem mem_alternatives_iff {tool : String} : tool ∈ g.alternatives ↔
    (∃ v, g.toolchain.get? v = some tool) ∨ tool = "gcov" ∧ g.cc = true := by
  rw [g.alternatives_perm.mem_iff, List.mem_append, get?_eq_command_iff]
  refine or_congr mem_compilers_iff ?_
  cases g.cc <;> simp

-- A name that stands in a text as often as any other would is told by the length of the text.
theorem framed_injective (first second third last : String) :
    Function.Injective fun name => first ++ name ++ second ++ name ++ third ++ name ++ last := by
  intro a b same
  have letters := congrArg String.toList same
  simp only [String.toList_append, List.append_assoc, List.append_cancel_left_eq] at letters
  have long := congrArg List.length letters
  simp only [List.length_append] at long
  exact String.toList_inj.mp (List.append_inj letters (by omega)).1

theorem alternativeCommand_injective (version : String) : Function.Injective (alternativeCommand version) := by
  intro a b same
  unfold alternativeCommand at same
  have before := (String.append_left_inj _).mp ((String.append_left_inj _).mp same)
  exact framed_injective _ _ _ _ before

theorem alternativeCommand_begins (version tool : String) :
    Text.Begins "update-alternatives " (alternativeCommand version tool) := by
  have opening : Text.Begins "update-alternatives " "update-alternatives --install /usr/bin/" := by decide
  unfold alternativeCommand
  simp only [String.append_assoc]
  exact opening.append _

theorem begins_toolset_iff :
    Text.Begins "devtoolset-" (toolset t version) ↔ ¬ 8 ≤ t.version.major := by
  unfold toolset
  split
  · rename_i renamed
    refine iff_of_false (fun begins => ?_) (not_not.mpr renamed)
    have nested := begins.nested (Text.begins_self_append "gcc-toolset-" version)
    exact absurd nested (by decide)
  · rename_i older
    exact iff_of_true (Text.begins_self_append _ _) older

theorem rpmRequest_scl_iff (given : g.version.isSome) : (g.rpmRequest t).scl = true ↔
    t.distribution = .centos ∧ ¬ 8 ≤ t.version.major := by
  simp [rpmRequest, given, Yum.isYum4, and_comm]

theorem toolsetEnvironment_entries (t : Target) (version : String) : (toolsetEnvironment t version).bindings.entries =
    [("LD_LIBRARY_PATH", "/opt/rh/" ++ toolset t version ++ "/root/usr/lib64:$LD_LIBRARY_PATH"),
      ("PATH", "/opt/rh/" ++ toolset t version ++ "/root/usr/bin:$PATH")] := by
  have before : "LD_LIBRARY_PATH" < "PATH" := by decide
  have libraries : "/root/usr/lib64:$LD_LIBRARY_PATH" = "/root/usr" ++ "/lib64:$LD_LIBRARY_PATH" := by decide
  have commands : "/root/usr/bin:$PATH" = "/root/usr" ++ "/bin:$PATH" := by decide
  rw [libraries, commands, ← String.append_assoc, ← String.append_assoc]
  exact if_pos before

end

section

variable {g : Gnu} {t : Target} {version : String}

-- What succeeds has a language to install.
theorem enabled_of_install (installed : (g.install t).result = .ok ps) :
    ∃ language, g.enabled language = true := by
  by_contra none
  have off : ∀ language, g.enabled language = false := by simpa using none
  have refused : (g.install t).result = .error (.noCompiler "gnu") :=
    install_error_iff.mpr ⟨off .c, off .cxx, off .fortran, rfl⟩
  rw [refused] at installed
  cases installed

theorem install_ok (installed : (g.install t).result = .ok ps) :
    ps = .shell { commands := ((g.request t).commands t).value } :: (g.version.map (g.selectVersion t)).toList := by
  obtain ⟨language, on⟩ := enabled_of_install installed
  have packages : (g.request t).packages t.packageFamily ≠ [] :=
    List.ne_nil_of_mem ((g.packageOf_mem_packages t language).mpr on)
  unfold install at installed
  have made := Outcome.ok_of_guarded installed
  simp only [Outcome.bind_ok_iff, Outcome.result_liftM, Outcome.result_pure] at made
  obtain ⟨shell, got, made⟩ := made
  cases got
  cases made
  rw [PackageRequest.install_of_packages packages]
  rfl

-- The package manager has no command that begins so.
theorem filter_alternatives (deb : t.packageFamily = .deb) (given : g.version = some version) :
    ((Instruction.shell { commands := ((g.request t).commands t).value } ::
      (g.version.map (g.selectVersion t)).toList).flatMap Instruction.shellCommands).filter
        (Text.Begins "update-alternatives ") = g.alternatives.map (alternativeCommand version) := by
  have apart : ∀ opening ∈ Apt.openings, ¬ (Text.Begins "update-alternatives " opening ∨
      Text.Begins opening "update-alternatives ") := by decide
  have before : (Apt.commands (g.request t)).filter (Text.Begins "update-alternatives ") = [] := by
    refine List.filter_eq_nil_iff.mpr fun c member begins => ?_
    obtain ⟨s, -, rfl⟩ := List.mem_map.mp member
    exact apart _ s.opening_mem ((of_decide_eq_true begins).nested s.begins_opening)
  have after : (g.alternatives.map (alternativeCommand version)).filter (Text.Begins "update-alternatives ") =
      g.alternatives.map (alternativeCommand version) := by
    refine List.filter_eq_self.mpr fun c member => ?_
    obtain ⟨tool, -, rfl⟩ := List.mem_map.mp member
    exact decide_eq_true (alternativeCommand_begins version tool)
  have made : (g.version.map (g.selectVersion t)).toList =
      [.shell { commands := g.alternatives.map (alternativeCommand version) }] := by
    simp only [given, Option.map_some, Option.toList_some, selectVersion, deb]
  have managed : ((g.request t).commands t).value = Apt.commands (g.request t) := by
    unfold PackageRequest.commands
    rw [deb]
    rfl
  rw [made, managed, List.flatMap_cons, List.flatMap_singleton, List.filter_append]
  simp only [Instruction.shellCommands, before, after, List.nil_append]

end

-- The repository of the older collections is enabled on CentOS, if one of them is asked for.
def collectionCommands (g : Gnu) (t : Target) : List String :=
  match g.version with
  | some version =>
    if t.distribution = .centos ∧ Text.Begins "devtoolset-" (toolset t version) then
      ["yum install -y centos-release-scl"]
    else []
  | none => []

-- The commands that install packages of some names, behind those that make them available.
def installCommands (g : Gnu) (t : Target) (names : List String) : List String :=
  match t.packageFamily with
  | .deb =>
    (if g.extraRepository then
      ["apt-get update -y", Apt.installText ["software-properties-common"],
        "apt-add-repository " ++ "ppa:ubuntu-toolchain-r/test" ++ " -y"]
    else []) ++ ["apt-get update -y", Apt.installText names, "rm -rf /var/lib/apt/lists/*"]
  | .rpm => g.collectionCommands t ++ [Yum.installText names, "rm -rf /var/cache/yum/*"]

section

variable {g : Gnu} {t : Target} {version : String}

theorem rpmRequest_scl : (if (g.rpmRequest t).scl then ["yum install -y centos-release-scl"] else []) =
    g.collectionCommands t := by
  unfold collectionCommands
  cases given : g.version with
  | none => simp [rpmRequest, given]
  | some version =>
    have same : (g.rpmRequest t).scl = true ↔
        t.distribution = .centos ∧ Text.Begins "devtoolset-" (toolset t version) := by
      rw [rpmRequest_scl_iff (by rw [given]; rfl), begins_toolset_iff]
    by_cases scl : (g.rpmRequest t).scl = true
    · rw [if_pos scl]
      exact (if_pos (same.mp scl)).symm
    · rw [if_neg scl]
      exact (if_neg (mt same.mpr scl)).symm

theorem commands_eq (some : (g.request t).packages t.packageFamily ≠ []) : ((g.request t).commands t).value =
    g.installCommands t ((g.request t).packages t.packageFamily) := by
  unfold PackageRequest.commands installCommands
  cases family : t.packageFamily with
  | deb =>
    rw [family] at some
    have request : g.request t = g.debRequest := by
      unfold request
      rw [family]
    show Apt.commands (g.request t) = _
    rw [Apt.commands, Apt.steps_of_packages some, request]
    unfold Apt.setup debRequest
    cases g.extraRepository <;> rfl
  | rpm =>
    rw [family] at some
    have request : g.request t = g.rpmRequest t := by
      unfold request
      rw [family]
    show ((Yum.steps t (g.request t)).value).map Yum.Step.text = _
    rw [Yum.steps_of_packages some, request, ← rpmRequest_scl, List.map_append]
    unfold Yum.setup
    cases (g.rpmRequest t).scl <;> rfl

-- No list of packages reads like the repository.
theorem scl_ne_installText (names : List String) : "yum install -y centos-release-scl" ≠ Yum.installText names := by
  intro same
  have whole : "yum install -y centos-release-scl" = "yum install -y" ++ " centos-release-scl" := by decide
  have rows := (String.append_right_inj _).mp (whole.symm.trans same)
  cases names with
  | nil => exact absurd rows (by decide)
  | cons name rest =>
    have letters := congrArg String.toList rows
    simp [packageRows] at letters

theorem scl_mem_installCommands (rpm : t.packageFamily = .rpm) (given : g.version = some version)
    (names : List String) : "yum install -y centos-release-scl" ∈ g.installCommands t names ↔
      t.distribution = .centos ∧ Text.Begins "devtoolset-" (toolset t version) := by
  simp only [installCommands, collectionCommands, rpm, given]
  rw [List.mem_append, List.mem_ite_nil_right, List.mem_singleton, eq_self, and_true]
  refine or_iff_left fun other => ?_
  rcases List.mem_cons.mp other with row | cleanUp
  · exact scl_ne_installText names row
  · exact absurd (List.mem_singleton.mp cleanUp) (by decide)

end

-- The compilers that are installed are those that the toolchain names, for both families of packages. With a
-- series, each of these commands gets an alternative on a Debian system, and gcov does with the C compiler. On
-- an RPM system all packages and search paths are then of one collection, and the repository that the older
-- collections come from is enabled where there is one.
theorem compilers_installed {g : Gnu} {t : Target} (installed : (g.install t).result = .ok ps) :
    ∃ names selected, ps = .shell { commands := g.installCommands t names } :: selected ∧
      (∀ name, name ∈ names ↔ ∃ language, g.enabled language = true ∧ g.packageOf t language = name) ∧
      (∀ language : Language, ∀ v ∈ language.toolVariables,
        (g.toolchain.get? v).isSome ↔ g.packageOf t language ∈ names) ∧
      (t.packageFamily = .deb → ∀ version, g.version = some version → ∃ tools : List String,
        (ps.flatMap Instruction.shellCommands).filter (Text.Begins "update-alternatives ") =
            tools.map (alternativeCommand version) ∧
          (tools.map (alternativeCommand version)).Nodup ∧
          ∀ tool, tool ∈ tools ↔ (∃ v, g.toolchain.get? v = some tool) ∨ tool = "gcov" ∧ g.cc = true) ∧
      (t.packageFamily = .rpm → ∀ version, g.version = some version →
        (∀ name ∈ names, ∃ language : Language, name = toolset t version ++ "-" ++ language.package .rpm) ∧
        (∃ e, selected = [.environment e] ∧ e.bindings.entries =
          [("LD_LIBRARY_PATH", "/opt/rh/" ++ toolset t version ++ "/root/usr/lib64:$LD_LIBRARY_PATH"),
            ("PATH", "/opt/rh/" ++ toolset t version ++ "/root/usr/bin:$PATH")]) ∧
        ("yum install -y centos-release-scl" ∈ g.installCommands t names ↔
          t.distribution = .centos ∧ Text.Begins "devtoolset-" (toolset t version))) := by
  obtain rfl := install_ok installed
  obtain ⟨language, on⟩ := enabled_of_install installed
  have some : (g.request t).packages t.packageFamily ≠ [] :=
    List.ne_nil_of_mem ((g.packageOf_mem_packages t language).mpr on)
  refine ⟨(g.request t).packages t.packageFamily, (g.version.map (g.selectVersion t)).toList, ?commands,
    g.mem_packages_request t, fun language v member => ?toolchain, fun deb version given => ⟨g.alternatives, ?alternatives, ?once,
      fun tool => mem_alternatives_iff⟩, fun rpm version given => ⟨fun name member => ?collection, ?paths, ?scl⟩⟩
  case commands => rw [commands_eq some]
  case toolchain => rw [get?_isSome_iff member, packageOf_mem_packages]
  case alternatives => exact filter_alternatives deb given
  case once => exact g.alternatives_nodup.map (alternativeCommand_injective version)
  case collection =>
    obtain ⟨language, -, rfl⟩ := (g.mem_packages_request t name).mp member
    refine ⟨language, ?_⟩
    simp only [packageOf, rpm, given]
  case paths =>
    refine ⟨toolsetEnvironment t version, ?_, toolsetEnvironment_entries t version⟩
    simp [given, selectVersion, rpm]
  case scl => exact scl_mem_installCommands rpm given _

theorem compilers_installed_series :
    let g : Gnu := { version := some "9", fortran := false }
    let t : Target :=
      { Target.ofFormat .docker with distribution := .centos, version := ⟨7, 0⟩, packageFamily := .rpm }
    ∃ names e, (g.install t).result = .ok
        [.shell { commands := ["yum install -y centos-release-scl", Yum.installText names, "rm -rf /var/cache/yum/*"] },
          .environment e] ∧
      "devtoolset-9-gcc-c++" ∈ names ∧ "devtoolset-9-gcc-gfortran" ∉ names ∧
      ("PATH", "/opt/rh/devtoolset-9/root/usr/bin:$PATH") ∈ e.bindings.entries := by
  intro g t
  have accepted : ∀ e, ¬ Block.Refused t (.gnu g) e := by
    intro e refused
    cases refused with
    | noCompiler _ cc => cases cc
  obtain ⟨ps, installed⟩ := Block.install_ok_iff.mpr accepted
  obtain ⟨names, selected, rfl, -, named, -, collected⟩ := compilers_installed installed
  obtain ⟨-, ⟨e, rfl, paths⟩, -⟩ := collected rfl "9" rfl
  have enabled : g.collectionCommands t = ["yum install -y centos-release-scl"] := if_pos ⟨rfl, by decide⟩
  refine ⟨names, e, ?_, (named .cxx .cxx (by decide)).mp rfl, fun fortran => ?_, ?_⟩
  · have written : g.installCommands t names =
        ["yum install -y centos-release-scl", Yum.installText names, "rm -rf /var/cache/yum/*"] :=
      congrArg (· ++ [Yum.installText names, "rm -rf /var/cache/yum/*"]) enabled
    rw [← written]
    exact installed
  · cases (named .fortran .fc (by decide)).mpr fortran
  · rw [paths]
    exact List.mem_cons_of_mem _ List.mem_cons_self

end Gnu

end ContainerRecipe
