import ContainerRecipe.Block
import ContainerRecipe.Proofs.Block.Archive
import ContainerRecipe.Proofs.Render.Failure

namespace ContainerRecipe

-- A release of the SDK: two digits for the year, a point, and digits for the month.
def IsRelease (version : String) : Prop :=
  ∃ year month, version.toList = year ++ '.' :: month ∧ year.length = 2 ∧ month ≠ [] ∧
    ∀ c ∈ year ++ month, c.isDigit = true

namespace Nvhpc

-- Nothing is held against the SDK for its license agreement.
def Licensed (n : Nvhpc) (t : Target) : Prop := ¬ (n.eula = false ∧ t.licensePolicy = .fatal)

end Nvhpc

-- Why a block is refused in a stage. A reason that is looked for later says that those before it do not apply.
inductive Block.Refused (t : Target) : Block → BlockError → Prop where
  | noCompiler (g : Gnu) (cc : g.cc = false) (cxx : g.cxx = false) (fortran : g.fortran = false) :
      Refused t (.gnu g) (.noCompiler "gnu")
  | noUrl (a : Autotools) (missing : a.url = none) :
      Refused t (.autotools a) (.missingParameter a.name "url")
  | noArchive (a : Autotools) (given : a.url = some link) (other : ¬ IsArchive (Text.afterLast '/' link)) :
      Refused t (.autotools a) (.unknownArchive a.name (Text.afterLast '/' link))
  | license (n : Nvhpc) (declined : n.eula = false) (strict : t.licensePolicy = .fatal) :
      Refused t (.nvhpc n) (.licenseNotAccepted "nvhpc")
  | release (n : Nvhpc) (licensed : n.Licensed t) (own : n.url = none) (malformed : ¬ IsRelease n.version) :
      Refused t (.nvhpc n) (.malformedRelease "nvhpc" n.version)
  | cuda (n : Nvhpc) (licensed : n.Licensed t) (own : n.url = none) (release : IsRelease n.version)
      (single : n.cudaMulti = false) (missing : n.cuda = none) :
      Refused t (.nvhpc n) (.missingParameter "nvhpc" "cuda")
  | mirror (n : Nvhpc) (licensed : n.Licensed t) (given : n.url = some link) (other : ¬ IsArchive link) :
      Refused t (.nvhpc n) (.unknownArchive "nvhpc" (Text.afterLast '/' link))

theorem LicensePolicy.check_error_iff {policy : LicensePolicy} {accepted : Bool} :
    (policy.check block accepted).result = .error e ↔
      accepted = false ∧ policy = .fatal ∧ e = .licenseNotAccepted block := by
  cases accepted <;> cases policy <;> simp [check, eq_comm]

theorem LicensePolicy.check_ok_iff {policy : LicensePolicy} {accepted : Bool} :
    (policy.check block accepted).result = .ok () ↔ ¬ (accepted = false ∧ policy = .fatal) := by
  cases accepted <;> cases policy <;> simp [check]

theorem Gnu.install_error_iff {g : Gnu} : (g.install t).result = .error e ↔
    g.cc = false ∧ g.cxx = false ∧ g.fortran = false ∧ e = .noCompiler "gnu" := by
  have known : ∀ x : Logged (List Instruction), ¬ (do
      let installed ← (x : Outcome BlockError (List Instruction))
      return installed ++ (g.version.map (g.selectVersion t)).toList).result = .error e := fun _ => nofun
  unfold install
  split
  · rename_i off
    have off : g.cc = false ∧ g.cxx = false ∧ g.fortran = false := by simpa [and_assoc] using off
    rw [Outcome.bind_of_error (Outcome.result_throw _)]
    simp [off, name, eq_comm]
  · rename_i some
    have some : ¬ (g.cc = false ∧ g.cxx = false ∧ g.fortran = false) := by simpa [and_assoc] using some
    exact iff_of_false (known _) fun refused => some ⟨refused.1, refused.2.1, refused.2.2.1⟩

theorem Autotools.requireUrl_ok_iff {a : Autotools} : a.requireUrl = .ok link ↔ a.url = some link := by
  unfold requireUrl
  cases a.url <;> simp

theorem Autotools.requireUrl_error_iff {a : Autotools} :
    a.requireUrl = .error e ↔ a.url = none ∧ e = .missingParameter a.name "url" := by
  unfold requireUrl
  cases a.url <;> simp [eq_comm]

theorem Autotools.build_error_iff {a : Autotools} : a.build t = .error e ↔
    a.url = none ∧ e = .missingParameter a.name "url" ∨
      ∃ link, a.url = some link ∧ ¬ IsArchive link ∧ e = .unknownArchive a.name (Text.afterLast '/' link) := by
  unfold build
  simp only [Outcome.result_bind_error_iff, requireUrl_error_iff, requireUrl_ok_iff, Archive.ofUrl_error_iff]
  refine or_congr_right (exists_congr fun link => and_congr_right fun _ => or_iff_left ?_)
  rintro ⟨archive, -, never⟩
  cases never

namespace Nvhpc

theorem releaseParts?_isSome_iff {release : String} : (releaseParts? release).isSome ↔ IsRelease release := by
  constructor
  · intro parts
    obtain ⟨⟨first, second⟩, parts⟩ := Option.isSome_iff_exists.mp parts
    obtain ⟨⟨year, month⟩, cut, formed⟩ := Option.bind_eq_some_iff.mp parts
    obtain ⟨whole, -⟩ := Text.cutFirst?_eq_some_iff.mp cut
    dsimp only at formed
    split at formed
    · rename_i held
      simp only [Bool.and_eq_true, decide_eq_true_eq, Bool.not_eq_true', List.isEmpty_eq_false_iff,
        List.all_eq_true] at held
      exact ⟨year, month, whole, held.1.1, held.1.2, held.2⟩
    · cases formed
  · rintro ⟨year, month, whole, two, given, digits⟩
    have apart : '.' ∉ year := fun point =>
      absurd (digits _ (List.mem_append_left _ point)) (by decide)
    have held : (year.length = 2 && !month.isEmpty && (year ++ month).all Char.isDigit) = true := by
      simp only [Bool.and_eq_true, decide_eq_true_eq, Bool.not_eq_true', List.isEmpty_eq_false_iff,
        List.all_eq_true]
      exact ⟨⟨two, given⟩, digits⟩
    unfold releaseParts?
    rw [whole, Text.cutFirst?_of_parts apart]
    exact Option.isSome_iff_exists.mpr ⟨(year, month), if_pos held⟩

instance : DecidablePred IsRelease := fun _ => decidable_of_iff _ releaseParts?_isSome_iff

theorem flavour_error_iff {n : Nvhpc} : n.flavour = .error e ↔
    n.cudaMulti = false ∧ n.cuda = none ∧ e = .missingParameter "nvhpc" "cuda" := by
  unfold flavour
  cases n.cudaMulti <;> cases n.cuda <;> simp [name, eq_comm]

theorem archiveUrl_error_iff {n : Nvhpc} : n.archiveUrl t = .error e ↔ n.url = none ∧
    (¬ IsRelease n.version ∧ e = .malformedRelease "nvhpc" n.version ∨ IsRelease n.version ∧
      n.cudaMulti = false ∧ n.cuda = none ∧ e = .missingParameter "nvhpc" "cuda") := by
  have written : ∀ f : String → String,
      (do return f (← n.flavour) : Except BlockError String) = .error e ↔ n.flavour = .error e := by
    intro f
    rw [Outcome.result_bind_error_iff]
    exact or_iff_left fun ⟨_, _, never⟩ => nomatch never
  rw [← releaseParts?_isSome_iff]
  unfold archiveUrl
  cases n.url with
  | some link => exact iff_of_false nofun fun own => nomatch own.1
  | none =>
    cases releaseParts? n.version with
    | none =>
      constructor
      · intro refused
        cases refused
        exact ⟨rfl, .inl ⟨Bool.false_ne_true, rfl⟩⟩
      · rintro ⟨-, ⟨-, rfl⟩ | ⟨formed, -⟩⟩
        · rfl
        · cases formed
    | some parts =>
      refine (written _).trans (flavour_error_iff.trans ?_)
      simp

theorem archiveUrl_of_mirror {n : Nvhpc} (given : n.url = some link) : n.archiveUrl t = .ok link := by
  unfold archiveUrl
  rw [given]

-- The archive that is chosen by the release has an ending that is known.
theorem archiveUrl_ok {n : Nvhpc} (chosen : n.archiveUrl t = .ok link) :
    n.url = some link ∨ n.url = none ∧ IsArchive link := by
  unfold archiveUrl at chosen
  cases given : n.url with
  | some mirror =>
    rw [given] at chosen
    cases chosen
    exact .inl rfl
  | none =>
    rw [given] at chosen
    dsimp only at chosen
    split at chosen
    · cases chosen
    · obtain ⟨flavour, -, written⟩ := Outcome.result_bind_ok_iff.mp chosen
      exact .inr ⟨rfl, (".tar.gz", .gzip), by decide, _, (Except.ok.inj written).symm⟩

theorem install_error_iff {n : Nvhpc} : (n.install t).result = .error e ↔ Block.Refused t (.nvhpc n) e := by
  unfold install
  simp only [Outcome.bind_error_iff, Outcome.result_ofExcept, Outcome.result_liftM, Outcome.result_pure,
    reduceCtorEq, and_false, exists_false, or_false]
  constructor
  · rintro (refused | ⟨⟨⟩, passed, refused⟩)
    · obtain ⟨declined, strict, rfl⟩ := LicensePolicy.check_error_iff.mp refused
      exact .license n declined strict
    · have licensed : n.Licensed t := LicensePolicy.check_ok_iff.mp passed
      rcases refused with unnamed | ⟨link, chosen, unknown⟩
      · obtain ⟨own, ⟨malformed, rfl⟩ | ⟨release, single, missing, rfl⟩⟩ := archiveUrl_error_iff.mp unnamed
        · exact .release n licensed own malformed
        · exact .cuda n licensed own release single missing
      · obtain ⟨other, rfl⟩ := Archive.ofUrl_error_iff.mp unknown
        rcases archiveUrl_ok chosen with given | ⟨-, archive⟩
        · exact .mirror n licensed given other
        · exact absurd archive other
  · intro refused
    cases refused with
    | license _ declined strict => exact .inl (LicensePolicy.check_error_iff.mpr ⟨declined, strict, rfl⟩)
    | release _ licensed own malformed =>
      refine .inr ⟨(), LicensePolicy.check_ok_iff.mpr licensed, .inl ?_⟩
      exact archiveUrl_error_iff.mpr ⟨own, .inl ⟨malformed, rfl⟩⟩
    | cuda _ licensed own release single missing =>
      refine .inr ⟨(), LicensePolicy.check_ok_iff.mpr licensed, .inl ?_⟩
      exact archiveUrl_error_iff.mpr ⟨own, .inr ⟨release, single, missing, rfl⟩⟩
    | mirror _ licensed given other =>
      refine .inr ⟨(), LicensePolicy.check_ok_iff.mpr licensed, .inr ⟨_, archiveUrl_of_mirror given, ?_⟩⟩
      exact Archive.ofUrl_error_iff.mpr ⟨other, rfl⟩

theorem install_ok {n : Nvhpc} (installed : (n.install t).result = .ok ps) : ∃ a : Archive,
    ps = (PackageRequest.install { common := buildPackages t.packageFamily } t).value ++
      [.shell { commands := n.installCommands a }] ++
        if n.environment then [.environment { bindings := n.environmentBindings t }] else [] := by
  unfold install at installed
  simp only [Outcome.bind_ok_iff, Outcome.result_ofExcept, Outcome.result_liftM, Outcome.result_pure] at installed
  obtain ⟨⟨⟩, -, link, -, a, -, packages, got, made⟩ := installed
  cases got
  exact ⟨a, (Except.ok.inj made).symm⟩

end Nvhpc

section

-- The kinds of instruction that building blocks are made of.
inductive Instruction.Elementary : Instruction → Prop where
  | comment (c : Comment) : Elementary (.comment c)
  | shell (s : Shell) : Elementary (.shell s)
  | environment (e : Environment) : Elementary (.environment e)

theorem Instruction.Elementary.render_ok {p : Instruction} (elementary : p.Elementary) (t : Target) :
    ∃ text, (p.render t).result = .ok text := by
  rw [Outcome.ok_iff_not_fails, Instruction.render_fails_iff]
  unfold Format.Refuses
  cases elementary <;> cases t.format <;> exact id

theorem PackageRequest.install_shell (r : PackageRequest) (t : Target) :
    ∀ p ∈ (r.install t).value, ∃ s, p = .shell s := by
  intro p member
  simp only [install, Logged.value_bind, Logged.value_pure] at member
  split at member
  · cases member
  · exact ⟨_, List.mem_singleton.mp member⟩

theorem PackageRequest.install_elementary (r : PackageRequest) (t : Target) :
    ∀ p ∈ (r.install t).value, p.Elementary := by
  intro p member
  obtain ⟨s, rfl⟩ := r.install_shell t p member
  exact .shell s

theorem Gnu.install_elementary {g : Gnu} (installed : (g.install t).result = .ok ps) :
    ∀ p ∈ ps, p.Elementary := by
  have selected : ∀ version, (g.selectVersion t version).Elementary := by
    intro version
    unfold selectVersion
    cases t.packageFamily with
    | deb => exact .shell _
    | rpm => exact .environment _
  unfold install at installed
  have made := Outcome.ok_of_guarded installed
  simp only [Outcome.bind_ok_iff, Outcome.result_liftM, Outcome.result_pure] at made
  obtain ⟨packages, got, made⟩ := made
  cases got
  cases made
  refine List.forall_mem_append.mpr ⟨PackageRequest.install_elementary _ t, fun p member => ?_⟩
  obtain ⟨version, -, rfl⟩ := Option.map_eq_some_iff.mp (Option.mem_toList.mp member)
  exact selected version

theorem Nvhpc.install_elementary {n : Nvhpc} (installed : (n.install t).result = .ok ps) :
    ∀ p ∈ ps, p.Elementary := by
  obtain ⟨a, rfl⟩ := install_ok installed
  refine List.forall_mem_append.mpr ⟨List.forall_mem_append.mpr ⟨?packages, ?shell⟩, ?environment⟩
  case packages => exact PackageRequest.install_elementary _ t
  case shell => exact List.forall_mem_singleton.mpr (.shell _)
  case environment =>
    split
    · exact List.forall_mem_singleton.mpr (.environment _)
    · exact List.forall_mem_nil _

theorem Autotools.build_elementary {a : Autotools} (built : a.build t = .ok ps) : ∀ p ∈ ps, p.Elementary := by
  unfold build at built
  simp only [Outcome.result_bind_ok_iff] at built
  obtain ⟨link, -, archive, -, made⟩ := built
  cases made
  refine List.forall_mem_append.mpr ⟨List.forall_mem_cons.mpr ⟨?comment, ?shell⟩, ?environment⟩
  case comment => exact .comment _
  case shell => exact List.forall_mem_singleton.mpr (.shell _)
  case environment =>
    unfold environmentInstructions
    split
    · exact List.forall_mem_singleton.mpr (.environment _)
    · exact List.forall_mem_nil _

end

namespace Block

theorem install_error_iff {b : Block} : (b.install t).result = .error e ↔ b.Refused t e := by
  cases b with
  | packages r => exact iff_of_false nofun nofun
  | gnu g =>
    refine Gnu.install_error_iff.trans ⟨?_, ?_⟩
    · rintro ⟨cc, cxx, fortran, rfl⟩
      exact .noCompiler g cc cxx fortran
    · rintro ⟨_, cc, cxx, fortran⟩
      exact ⟨cc, cxx, fortran, rfl⟩
  | nvhpc n => exact Nvhpc.install_error_iff
  | autotools a =>
    refine Autotools.build_error_iff.trans ⟨?_, ?_⟩
    · rintro (⟨missing, rfl⟩ | ⟨link, given, other, rfl⟩)
      · exact .noUrl a missing
      · exact .noArchive a given (mt (Archive.isArchive_afterLast_iff link).mp other)
    · intro refused
      cases refused with
      | noUrl _ missing => exact .inl ⟨missing, rfl⟩
      | noArchive _ given other =>
        exact .inr ⟨_, given, mt (Archive.isArchive_afterLast_iff _).mpr other, rfl⟩

theorem install_ok_iff {b : Block} : (∃ ps, (b.install t).result = .ok ps) ↔ ∀ e, ¬ b.Refused t e := by
  simp only [← install_error_iff]
  cases (b.install t).result <;> simp

theorem install_elementary {b : Block} (installed : (b.install t).result = .ok ps) :
    ∀ p ∈ ps, p.Elementary := by
  cases b with
  | packages r =>
    cases installed
    exact r.install_elementary t
  | gnu g => exact Gnu.install_elementary installed
  | nvhpc n => exact Nvhpc.install_elementary installed
  | autotools a => exact Autotools.build_elementary installed

-- A block is refused for the reasons that are told, and for nothing else. What it is expanded into where it is
-- not is made of comments, commands and variables, and there is a text for each in every format and version.
theorem install_refused (t : Target) (b : Block) :
    (∀ e, (b.install t).result = .error e ↔ b.Refused t e) ∧
      ∀ ps, (b.install t).result = .ok ps →
        ∀ p ∈ ps, p.Elementary ∧ ∀ u : Target, ∃ text, (p.render u).result = .ok text :=
  ⟨fun _ => install_error_iff, fun _ installed p member =>
    ⟨install_elementary installed p member, (install_elementary installed p member).render_ok⟩⟩

-- A CUDA release is taken as it is given, so that one with a slash in it is no reason to refuse the SDK. No
-- release at all is one.
theorem install_refused_slashed :
    (∃ ps, ((Block.nvhpc { eula := true, cudaMulti := false, cuda := some "12/3" }).install
          (.ofFormat .docker)).result = .ok ps ∧
        ∀ p ∈ ps, p.Elementary ∧ ∀ u : Target, ∃ text, (p.render u).result = .ok text) ∧
      ((Block.nvhpc { eula := true, cudaMulti := false }).install (.ofFormat .docker)).result =
        .error (.missingParameter "nvhpc" "cuda") := by
  have accepted : ∀ e, ¬ Refused (.ofFormat .docker)
      (.nvhpc { eula := true, cudaMulti := false, cuda := some "12/3" }) e := by
    intro e refused
    cases refused with
    | license _ declined => cases declined
    | release _ _ _ malformed => exact malformed (by decide)
    | cuda _ _ _ _ _ missing => cases missing
    | mirror _ _ given => cases given
  obtain ⟨ps, installed⟩ := install_ok_iff.mpr accepted
  refine ⟨⟨ps, installed, (install_refused _ _).2 ps installed⟩, ((install_refused _ _).1 _).mpr ?_⟩
  exact .cuda _ (fun declined => nomatch declined.1) rfl (by decide) rfl rfl

end Block

end ContainerRecipe
