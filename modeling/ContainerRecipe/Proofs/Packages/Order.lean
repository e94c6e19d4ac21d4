import ContainerRecipe.Packages.Yum
import ContainerRecipe.Proofs.Packages.Tools
import ContainerRecipe.Proofs.Render.Dockerfile

namespace ContainerRecipe

section

variable {α β : Type} {needs serves : α → Prop}

theorem preceded_map {f : β → α} {xs : List β} :
    Preceded needs serves (xs.map f) ↔ Preceded (needs ∘ f) (serves ∘ f) xs := by
  induction xs with
  | nil => simp
  | cons x rest ih => simp [ih]

theorem Preceded.imp {needs' serves' : α → Prop} {xs : List α} (ordered : Preceded needs serves xs)
    (need : ∀ x, needs' x → needs x) (serve : ∀ x, serves x → serves' x) : Preceded needs' serves' xs := by
  intro before x after split needed
  obtain ⟨y, member, served⟩ := ordered before x after split (need x needed)
  exact ⟨y, member, serve y served⟩

-- The last member, which stands nowhere else.
def EndsOnce (last : α) (xs : List α) : Prop := ∃ before, xs = before ++ [last] ∧ last ∉ before

theorem EndsOnce.map {f : α → β} {last : α} {xs : List α} (ends : EndsOnce last xs)
    (single : ∀ x, f x = f last → x = last) : EndsOnce (f last) (xs.map f) := by
  obtain ⟨before, rfl, apart⟩ := ends
  refine ⟨before.map f, by rw [List.map_append, List.map_singleton], fun member => ?_⟩
  obtain ⟨x, earlier, same⟩ := List.mem_map.mp member
  exact apart (single x same ▸ earlier)

-- A text has one of several beginnings at most if none of them begins with another one.
theorem Text.opening_unique {openings : List String}
    (apart : ∀ a ∈ openings, ∀ b ∈ openings, Begins a b → a = b) (here : a ∈ openings) (there : b ∈ openings)
    (first : Begins a t) (second : Begins b t) : a = b := by
  rcases first.nested second with inside | around
  · exact apart a here b there inside
  · exact (apart b there a here around).symm

end

-- Packages as an installation command names them, each on a line of its own.
def packageRows (packages : List String) : String := String.join (packages.map (" \\\n        " ++ ·))

namespace Apt

def installText (packages : List String) : String :=
  "DEBIAN_FRONTEND=noninteractive apt-get install -y --no-install-recommends" ++ packageRows packages

section

-- What the command of a step begins with.
def Step.opening : Step → String
  | .update => "apt-get "
  | .install _ => "DEBIAN_FRONTEND="
  | .addKey _ => "wget "
  | .addPpa _ => "apt-add-repository "
  | .addRepository repository => if isUrl repository then "wget " else "echo "
  | .cleanUp => "rm "

def openings : List String := ["apt-get ", "DEBIAN_FRONTEND=", "wget ", "apt-add-repository ", "echo ", "rm "]

theorem openings_apart : ∀ a ∈ openings, ∀ b ∈ openings, Text.Begins a b → a = b := by decide +kernel

theorem Step.opening_mem (s : Step) : s.opening ∈ openings := by
  unfold opening
  split
  case h_5 => split <;> decide
  all_goals decide

theorem Step.begins_opening (s : Step) : Text.Begins s.opening s.text := by
  have fetch : Text.Begins "wget " "wget -qO - " := by decide
  have echo : Text.Begins "echo " "echo \"" := by decide
  cases s with
  | update => decide
  | cleanUp => decide
  | install packages =>
    exact (show Text.Begins "DEBIAN_FRONTEND="
      "DEBIAN_FRONTEND=noninteractive apt-get install -y --no-install-recommends" by decide).append _
  | addKey url => exact (fetch.append url).append _
  | addPpa ppa => exact (Text.begins_self_append "apt-add-repository " ppa).append _
  | addRepository repository =>
    dsimp only [opening, text]
    split
    · exact ((fetch.append repository).append _).append _
    · exact ((echo.append repository).append _).append _

theorem Step.opening_eq_of_text {s t : Step} (same : s.text = t.text) : s.opening = t.opening :=
  Text.opening_unique openings_apart s.opening_mem t.opening_mem s.begins_opening (same ▸ t.begins_opening)

-- A file of source lines is fetched, and a source line is printed.
theorem opening_addRepository_ne (repository : String) (fetched : "wget " ≠ opening) (printed : "echo " ≠ opening) :
    (Step.addRepository repository).opening ≠ opening := by
  dsimp only [Step.opening]
  split
  · exact fetched
  · exact printed

theorem cleanUp_of_text {s : Step} (same : s.text = "rm -rf /var/lib/apt/lists/*") : s = .cleanUp := by
  have opening := Step.opening_eq_of_text (t := .cleanUp) same
  cases s with
  | cleanUp => rfl
  | addRepository repository => exact absurd opening (opening_addRepository_ne repository (by decide) (by decide))
  | _ =>
    dsimp only [Step.opening] at opening
    exact absurd opening (by decide)

theorem install_of_text {s : Step} (same : s.text = installText packages) :
    ∃ others, s = .install others := by
  have opening : s.opening = "DEBIAN_FRONTEND=" := Step.opening_eq_of_text (t := .install packages) same
  cases s with
  | install others => exact ⟨others, rfl⟩
  | addRepository repository => exact absurd opening (opening_addRepository_ne repository (by decide) (by decide))
  | _ =>
    dsimp only [Step.opening] at opening
    exact absurd opening (by decide)

end

section

variable {r : PackageRequest}

-- The commands for the sources of packages that a request asks for.
inductive Asked (r : PackageRequest) : String → Prop where
  | key (given : key ∈ r.aptKeys) : Asked r ("wget -qO - " ++ key ++ " | apt-key add -")
  | ppa (given : ppa ∈ r.aptPpas) : Asked r ("apt-add-repository " ++ ppa ++ " -y")
  | file (given : url ∈ r.aptRepositories) (fetched : isUrl url = true) :
      Asked r ("wget -qO - " ++ url ++ " >> " ++ "/etc/apt/sources.list.d/stagefile.list")
  | line (given : source ∈ r.aptRepositories) (printed : isUrl source = false) :
      Asked r ("echo \"" ++ source ++ "\" >> " ++ "/etc/apt/sources.list.d/stagefile.list")

theorem addRepository_text (repository : String) : (Step.addRepository repository).text =
    if isUrl repository then "wget -qO - " ++ repository ++ " >> " ++ "/etc/apt/sources.list.d/stagefile.list"
    else "echo \"" ++ repository ++ "\" >> " ++ "/etc/apt/sources.list.d/stagefile.list" := rfl

theorem exists_setup_of_asked (asked : Asked r command) : ∃ s ∈ setup r, s.text = command := by
  unfold setup
  cases asked with
  | @key key given => exact ⟨.addKey key, by simp [mem_keySteps, given, List.ne_nil_of_mem given], rfl⟩
  | @ppa ppa given => exact ⟨.addPpa ppa, by simp [mem_ppaSteps, given, List.ne_nil_of_mem given], rfl⟩
  | @file url given fetched =>
    exact ⟨.addRepository url, by simp [given], (addRepository_text url).trans (if_pos fetched)⟩
  | @line source given printed =>
    exact ⟨.addRepository source, by simp [given],
      (addRepository_text source).trans (if_neg (Bool.eq_false_iff.mp printed))⟩

theorem setup_eq_nil_iff : setup r = [] ↔ r.aptKeys = [] ∧ r.aptPpas = [] ∧ r.aptRepositories = [] := by
  have keys : keySteps r.aptKeys = [] ↔ r.aptKeys = [] := by simp [keySteps]
  have ppas : ppaSteps r.aptKeys r.aptPpas = [] ↔ r.aptPpas = [] := by simp [ppaSteps]
  rw [setup, List.append_eq_nil_iff, List.append_eq_nil_iff, keys, ppas, List.map_eq_nil_iff, and_assoc]

theorem steps_eq_nil_iff : steps r = [] ↔
    r.packages .deb = [] ∧ r.aptKeys = [] ∧ r.aptPpas = [] ∧ r.aptRepositories = [] := by
  rw [← setup_eq_nil_iff]
  exact eq_nil_iff_idle (steps_cases r)

theorem steps_endsOnce (some : steps r ≠ []) : EndsOnce .cleanUp (steps r) := by
  rcases steps_cases r with ⟨-, -, told⟩ | ⟨-, told⟩
  · exact absurd told some
  · refine ⟨_, told, fun member => ?_⟩
    rcases List.mem_append.mp member with before | packages
    · simp [setup, mem_keySteps, mem_ppaSteps] at before
    · unfold installSteps at packages
      split at packages
      · cases packages
      · simp at packages

-- The lists are read before the tools for keys are installed, and those for PPAs where there are no keys.
theorem steps_fresh (r : PackageRequest) :
    Preceded (fun s => ∃ packages, s = .install packages) (· = .update) (steps r) := by
  rcases steps_cases r with ⟨-, -, told⟩ | ⟨-, told⟩
  · rw [told]
    exact preceded_nil
  · rw [told, setup]
    simp only [preceded_append]
    refine ⟨⟨⟨⟨?keys, ?ppas⟩, .inr ?repositories⟩, .inr ?packages⟩, .inr ?cleanUp⟩
    case keys =>
      unfold keySteps
      split <;> simp
    case ppas =>
      by_cases given : r.aptKeys = []
      · refine .inr ?_
        unfold ppaSteps
        split <;> simp [given]
      · exact .inl ⟨.update, mem_keySteps.mpr ⟨given, .inl rfl⟩, rfl⟩
    case repositories => exact preceded_of_free (by simp)
    case packages =>
      unfold installSteps
      split <;> simp
    case cleanUp => simp

theorem steps_of_packages (given : r.packages .deb ≠ []) :
    steps r = setup r ++ [.update, .install (r.packages .deb), .cleanUp] := by
  rcases steps_cases r with ⟨-, none, -⟩ | ⟨-, told⟩
  · exact absurd none given
  · rw [told, installSteps, if_neg (mt List.isEmpty_iff.mp given), List.append_assoc]
    rfl

end

-- What is asked of the commands for a request.
structure Ordered (r : PackageRequest) (commands : List String) : Prop where
  idle : commands = [] ↔ r.packages .deb = [] ∧ r.aptKeys = [] ∧ r.aptPpas = [] ∧ r.aptRepositories = []
  cleaned : commands ≠ [] → EndsOnce "rm -rf /var/lib/apt/lists/*" commands
  fresh : Preceded (fun c => ∃ packages, c = installText packages) (· = "apt-get update -y") commands
  -- The packages come behind all that they may be found in.
  last : r.packages .deb ≠ [] → ∃ before,
    commands = before ++ ["apt-get update -y", installText (r.packages .deb), "rm -rf /var/lib/apt/lists/*"] ∧
      ∀ c, Asked r c → c ∈ before

theorem commands_ordered (r : PackageRequest) : Ordered r (commands r) := by
  have texts : commands r = (steps r).map Step.text := rfl
  rw [texts]
  refine ⟨?idle, ?cleaned, ?fresh, ?last⟩
  case idle => rw [List.map_eq_nil_iff, steps_eq_nil_iff]
  case cleaned =>
    intro some
    have ends : EndsOnce Step.cleanUp.text ((steps r).map Step.text) :=
      (steps_endsOnce (mt List.map_eq_nil_iff.mpr some)).map fun _ same => cleanUp_of_text same
    exact ends
  case fresh =>
    refine preceded_map.mpr ((steps_fresh r).imp ?_ ?_)
    · rintro s ⟨packages, same⟩
      exact install_of_text same
    · rintro s rfl
      rfl
  case last =>
    intro given
    refine ⟨(setup r).map Step.text, ?_, fun c asked => List.mem_map.mpr (exists_setup_of_asked asked)⟩
    rw [steps_of_packages given, List.map_append]
    rfl

end Apt

namespace Yum

def installText (packages : List String) : String := "yum install -y" ++ packageRows packages

section

-- What the command of a step begins with.
def Step.opening : Step → String
  | .importKey _ => "rpm "
  | .addRepository _ => "yum-config-manager "
  | .installUtilities _ | .enableEpel | .enablePowertools _ | .enableScl | .install _ => "yum install "
  | .cleanUp => "rm "

def openings : List String := ["rpm ", "yum-config-manager ", "yum install ", "rm "]

theorem openings_apart : ∀ a ∈ openings, ∀ b ∈ openings, Text.Begins a b → a = b := by decide +kernel

theorem Step.opening_mem (s : Step) : s.opening ∈ openings := by
  unfold opening
  split <;> decide

theorem Step.begins_opening (s : Step) : Text.Begins s.opening s.text := by
  have install : Text.Begins "yum install " "yum install -y" := by decide
  cases s with
  | importKey url => exact (show Text.Begins "rpm " "rpm --import " by decide).append url
  | installUtilities yum4 => exact (show Text.Begins "yum install " "yum install -y " by decide).append _
  | addRepository url =>
    exact (show Text.Begins "yum-config-manager " "yum-config-manager --add-repo " by decide).append url
  | enableEpel => decide
  | enablePowertools repository =>
    exact (show Text.Begins "yum install "
      "yum install -y dnf-plugins-core && yum config-manager --set-enabled " by decide).append repository
  | enableScl => decide
  | install packages => exact install.append _
  | cleanUp => decide

theorem Step.opening_eq_of_text {s t : Step} (same : s.text = t.text) : s.opening = t.opening :=
  Text.opening_unique openings_apart s.opening_mem t.opening_mem s.begins_opening (same ▸ t.begins_opening)

theorem cleanUp_of_text {s : Step} (same : s.text = "rm -rf /var/cache/yum/*") : s = .cleanUp := by
  have opening := Step.opening_eq_of_text (t := .cleanUp) same
  cases s with
  | cleanUp => rfl
  | _ =>
    dsimp only [Step.opening] at opening
    exact absurd opening (by decide)

theorem addRepository_of_text {s : Step} (same : s.text = "yum-config-manager --add-repo " ++ url) :
    ∃ other, s = .addRepository other := by
  have opening := Step.opening_eq_of_text (t := .addRepository url) same
  cases s with
  | addRepository other => exact ⟨other, rfl⟩
  | _ =>
    dsimp only [Step.opening] at opening
    exact absurd opening (by decide)

end

section

variable {t : Target} {r : PackageRequest}

theorem powertoolsSteps_value (t : Target) (r : PackageRequest) : (powertoolsSteps t r).value =
    if r.powertools && isYum4 t r then [.enablePowertools (powertoolsRepository t)] else [] := by
  unfold powertoolsSteps
  cases r.powertools <;> cases isYum4 t r <;> rfl

-- All that is done before the packages are installed.
def setup (t : Target) (r : PackageRequest) : List Step :=
  r.yumKeys.map .importKey ++ repositorySteps (isYum4 t r) r.yumRepositories ++
    (if r.epel then [.enableEpel] else []) ++
    (if r.powertools && isYum4 t r then [.enablePowertools (powertoolsRepository t)] else []) ++
    if r.scl then [.enableScl] else []

theorem steps_cases (t : Target) (r : PackageRequest) :
    setup t r = [] ∧ r.packages .rpm = [] ∧ (steps t r).value = [] ∨
      (setup t r ≠ [] ∨ r.packages .rpm ≠ []) ∧
        (steps t r).value = setup t r ++ installSteps (r.packages .rpm) ++ [.cleanUp] := by
  have told : (steps t r).value = if (setup t r).isEmpty && (r.packages .rpm).isEmpty then []
      else setup t r ++ installSteps (r.packages .rpm) ++ [.cleanUp] := by
    unfold steps setup
    rw [Logged.value_bind, powertoolsSteps_value]
    rfl
  rw [told]
  exact unless_idle (setup t r) (r.packages .rpm) _

-- The commands for the sources of packages that a request asks for.
inductive Asked (t : Target) (r : PackageRequest) : String → Prop where
  | key (given : key ∈ r.yumKeys) : Asked t r ("rpm --import " ++ key)
  | repository (given : url ∈ r.yumRepositories) : Asked t r ("yum-config-manager --add-repo " ++ url)
  | epel (on : r.epel = true) : Asked t r "yum install -y epel-release"
  | powertools (on : r.powertools = true) (yum4 : isYum4 t r = true) :
      Asked t r ("yum install -y dnf-plugins-core && yum config-manager --set-enabled " ++
        if 9 ≤ t.version.major then "crb" else "powertools")
  | scl (on : r.scl = true) : Asked t r "yum install -y centos-release-scl"

theorem exists_setup_of_asked (asked : Asked t r command) : ∃ s ∈ setup t r, s.text = command := by
  unfold setup repositorySteps
  cases asked with
  | @key key given => exact ⟨.importKey key, by simp [given], rfl⟩
  | @repository url given =>
    have some : ¬ r.yumRepositories.isEmpty = true := mt List.isEmpty_iff.mp (List.ne_nil_of_mem given)
    exact ⟨.addRepository url, by simp [some, given], rfl⟩
  | epel on => exact ⟨.enableEpel, by simp [on], rfl⟩
  | powertools on yum4 => exact ⟨.enablePowertools (powertoolsRepository t), by simp [on, yum4], rfl⟩
  | scl on => exact ⟨.enableScl, by simp [on], rfl⟩

theorem cleanUp_not_mem_setup (t : Target) (r : PackageRequest) : .cleanUp ∉ setup t r := by
  unfold setup repositorySteps
  cases r.yumRepositories <;> simp

theorem setup_eq_nil_iff : setup t r = [] ↔ r.yumKeys = [] ∧ r.yumRepositories = [] ∧ r.epel = false ∧
    r.scl = false ∧ (r.powertools = false ∨ isYum4 t r = false) := by
  have utilities : repositorySteps (isYum4 t r) r.yumRepositories = [] ↔ r.yumRepositories = [] := by
    simp [repositorySteps]
  unfold setup
  simp only [List.append_eq_nil_iff, List.map_eq_nil_iff, utilities, ite_eq_right_iff, List.cons_ne_nil, imp_false,
    Bool.and_eq_true, Bool.not_eq_true, not_and_or, and_assoc]
  exact ⟨fun ⟨keys, repositories, epel, powertools, scl⟩ => ⟨keys, repositories, epel, scl, powertools⟩,
    fun ⟨keys, repositories, epel, scl, powertools⟩ => ⟨keys, repositories, epel, powertools, scl⟩⟩

theorem steps_eq_nil_iff : (steps t r).value = [] ↔
    r.packages .rpm = [] ∧ r.yumKeys = [] ∧ r.yumRepositories = [] ∧ r.epel = false ∧ r.scl = false ∧
      (r.powertools = false ∨ isYum4 t r = false) := by
  rw [← setup_eq_nil_iff]
  exact eq_nil_iff_idle (steps_cases t r)

theorem steps_endsOnce (some : (steps t r).value ≠ []) : EndsOnce .cleanUp (steps t r).value := by
  rcases steps_cases t r with ⟨-, -, told⟩ | ⟨-, told⟩
  · exact absurd told some
  · refine ⟨_, told, fun member => ?_⟩
    rcases List.mem_append.mp member with before | packages
    · exact cleanUp_not_mem_setup t r before
    · unfold installSteps at packages
      split at packages
      · cases packages
      · simp at packages

theorem steps_equipped (t : Target) (r : PackageRequest) :
    Preceded (fun s => ∃ url, s = .addRepository url) (· = .installUtilities (isYum4 t r)) (steps t r).value := by
  rcases steps_cases t r with ⟨-, -, told⟩ | ⟨-, told⟩
  · rw [told]
    exact preceded_nil
  · rw [told, setup]
    simp only [preceded_append]
    refine ⟨⟨⟨⟨⟨⟨?keys, .inr ?repositories⟩, .inr ?epel⟩, .inr ?powertools⟩, .inr ?scl⟩, .inr ?packages⟩,
      .inr ?cleanUp⟩
    case keys => exact preceded_of_free (by simp)
    case repositories =>
      unfold repositorySteps
      split <;> simp
    case epel => split <;> simp
    case powertools => split <;> simp
    case scl => split <;> simp
    case packages =>
      unfold installSteps
      split <;> simp
    case cleanUp => simp

theorem steps_of_packages (given : r.packages .rpm ≠ []) :
    (steps t r).value = setup t r ++ [.install (r.packages .rpm), .cleanUp] := by
  rcases steps_cases t r with ⟨-, none, -⟩ | ⟨-, told⟩
  · exact absurd none given
  · rw [told, installSteps, if_neg (mt List.isEmpty_iff.mp given), List.append_assoc]
    rfl

end

-- What is asked of the commands for a request.
structure Ordered (t : Target) (r : PackageRequest) (commands : List String) : Prop where
  idle : commands = [] ↔ r.packages .rpm = [] ∧ r.yumKeys = [] ∧ r.yumRepositories = [] ∧ r.epel = false ∧
    r.scl = false ∧ (r.powertools = false ∨ isYum4 t r = false)
  cleaned : commands ≠ [] → EndsOnce "rm -rf /var/cache/yum/*" commands
  equipped : Preceded (fun c => ∃ url, c = "yum-config-manager --add-repo " ++ url)
    (· = "yum install -y " ++ if isYum4 t r then "dnf-utils" else "yum-utils") commands
  -- The packages come behind all that they may be found in.
  last : r.packages .rpm ≠ [] → ∃ before,
    commands = before ++ [installText (r.packages .rpm), "rm -rf /var/cache/yum/*"] ∧
      ∀ c, Asked t r c → c ∈ before

theorem commands_ordered (t : Target) (r : PackageRequest) : Ordered t r (commands t r).value := by
  have texts : (commands t r).value = (steps t r).value.map Step.text := rfl
  rw [texts]
  refine ⟨?idle, ?cleaned, ?equipped, ?last⟩
  case idle => rw [List.map_eq_nil_iff, steps_eq_nil_iff]
  case cleaned =>
    intro some
    have ends : EndsOnce Step.cleanUp.text ((steps t r).value.map Step.text) :=
      (steps_endsOnce (mt List.map_eq_nil_iff.mpr some)).map fun _ same => cleanUp_of_text same
    exact ends
  case equipped =>
    refine preceded_map.mpr ((steps_equipped t r).imp ?_ ?_)
    · rintro s ⟨url, same⟩
      exact addRepository_of_text same
    · rintro s rfl
      rfl
  case last =>
    intro given
    refine ⟨(setup t r).map Step.text, ?_, fun c asked => List.mem_map.mpr (exists_setup_of_asked asked)⟩
    rw [steps_of_packages given, List.map_append]
    rfl

end Yum

-- The commands of both package managers are in order for every request, on every target.
theorem PackageRequest.commands_in_order (t : Target) (r : PackageRequest) :
    Apt.Ordered r (Apt.commands r) ∧ Yum.Ordered t r (Yum.commands t r).value :=
  ⟨Apt.commands_ordered r, Yum.commands_ordered t r⟩

end ContainerRecipe
