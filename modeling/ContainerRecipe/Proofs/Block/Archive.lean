import ContainerRecipe.Block.Archive
import ContainerRecipe.Proofs.Outcome
import ContainerRecipe.Proofs.Shell.Quoting
import ContainerRecipe.Proofs.Text.Route

namespace ContainerRecipe

-- A file whose name has one of the endings of archives.
def IsArchive (file : String) : Prop := ∃ kind ∈ Archive.endings, ∃ stem, file = stem ++ kind.1

namespace Archive

section

variable {name stem : String} {compression : Compression}

-- No ending is the end of another one.
theorem endings_apart : ∀ kind ∈ endings, ∀ other ∈ endings, kind.1.toList <:+ other.1.toList → kind = other := by
  decide

theorem ending_unique {kind other : String × Compression} (here : kind ∈ endings) (there : other ∈ endings)
    (same : stem ++ kind.1 = stem' ++ other.1) : kind = other := by
  have first : kind.1.toList <:+ (stem ++ kind.1).toList := by simp
  have second : other.1.toList <:+ (stem ++ kind.1).toList := by simp [same]
  rcases Nat.le_total kind.1.toList.length other.1.toList.length with shorter | longer
  · exact endings_apart kind here other there (List.suffix_of_suffix_length_le first second shorter)
  · exact (endings_apart other there kind here (List.suffix_of_suffix_length_le second first longer)).symm

theorem splitEnding?_isSome_iff : (splitEnding? name).isSome ↔ IsArchive name := by
  unfold splitEnding? IsArchive
  rw [List.findSome?_isSome_iff]
  refine exists_congr fun kind => and_congr_right fun _ => ?_
  rw [Option.isSome_map, Option.isSome_iff_exists]
  exact exists_congr fun stem => Text.dropEnding?_eq_some_iff

theorem splitEnding?_eq_some_iff : splitEnding? name = some (stem, compression) ↔
    ∃ ending, (ending, compression) ∈ endings ∧ name = stem ++ ending := by
  have forward : ∀ {stem compression}, splitEnding? name = some (stem, compression) →
      ∃ ending, (ending, compression) ∈ endings ∧ name = stem ++ ending := by
    intro stem compression cut
    obtain ⟨⟨ending, _⟩, member, dropped⟩ := List.exists_of_findSome?_eq_some cut
    obtain ⟨_, before, same⟩ := Option.map_eq_some_iff.mp dropped
    cases same
    exact ⟨ending, member, Text.dropEnding?_eq_some_iff.mp before⟩
  refine ⟨forward, ?_⟩
  rintro ⟨ending, member, whole⟩
  obtain ⟨⟨other, kind⟩, cut⟩ := Option.isSome_iff_exists.mp
    (splitEnding?_isSome_iff.mpr ⟨(ending, compression), member, stem, whole⟩)
  obtain ⟨ending', member', whole'⟩ := forward cut
  cases ending_unique member member' (whole.symm.trans whole')
  rw [cut, (String.append_left_inj _).mp (whole.symm.trans whole')]

-- A name with an ending is long enough to be the name of a file.
theorem isName_of_isArchive (archive : IsArchive name) : Path.IsName name := by
  have long : ∀ kind ∈ endings, 4 ≤ kind.1.length := by decide
  obtain ⟨kind, member, stem, rfl⟩ := archive
  have enough := long kind member
  have length : 4 ≤ (stem ++ kind.1).length := by
    rw [String.length_append]
    omega
  refine ⟨?_, ?_, ?_⟩
  all_goals
    intro short
    rw [short] at length
    exact absurd length (by decide)

-- A URL has an ending if its last part has it, since no ending goes over a slash.
theorem isArchive_afterLast_iff (url : String) : IsArchive (Text.afterLast '/' url) ↔ IsArchive url := by
  have spelled : ∀ kind ∈ endings, '/' ∉ kind.1.toList := by decide
  have ends : ∀ (ending s : String), (∃ stem, s = stem ++ ending) ↔ ending.toList <:+ s.toList := by
    intro ending s
    constructor
    · rintro ⟨stem, rfl⟩
      simp
    · rintro ⟨stem, whole⟩
      refine ⟨String.ofList stem, ?_⟩
      rw [← String.toList_inj, String.toList_append, String.toList_ofList, whole]
  unfold IsArchive
  refine exists_congr fun kind => and_congr_right fun member => ?_
  rw [ends, ends, Text.suffix_afterLast_iff (spelled kind member)]

end

section

variable {t : Target} {block link : String} {override : Option String} {a : Archive}

theorem ofUrl_ok (fetched : ofUrl t block link override = .ok a) : ∃ stem compression,
    splitEnding? (Text.afterLast '/' link) = some (stem, compression) ∧
      a = ⟨link, Text.dropTrailing '/' t.workingDirectory, Text.afterLast '/' link, override.getD stem,
        compression⟩ := by
  unfold ofUrl at fetched
  dsimp only at fetched
  cases cut : splitEnding? (Text.afterLast '/' link) with
  | none =>
    rw [cut] at fetched
    cases fetched
  | some parts =>
    rw [cut] at fetched
    exact ⟨parts.1, parts.2, rfl, (Except.ok.inj fetched).symm⟩

theorem ofUrl_error_iff {e : BlockError} : ofUrl t block link override = .error e ↔
    ¬ IsArchive link ∧ e = .unknownArchive block (Text.afterLast '/' link) := by
  unfold ofUrl
  dsimp only
  rw [← isArchive_afterLast_iff, ← splitEnding?_isSome_iff]
  cases splitEnding? (Text.afterLast '/' link) with
  | none => simp [eq_comm]
  | some parts => simp

-- In plain texts there is nothing that a shell parts or takes for anything else.
theorem splitWords?_cleanUp (workspace : Shell.Plain a.workspace) (directory : Shell.Plain a.directory)
    (file : Shell.Plain a.file) :
    Shell.splitWords? a.cleanUp = some ["rm", "-rf", a.sources, a.download] := by
  have slash : Shell.Plain "/" := by decide
  have spelled (rest : String) (plain : Shell.Plain rest) :
      Shell.Spells (a.workspace ++ "/" ++ rest).toList (a.workspace ++ "/" ++ rest).toList :=
    Shell.spells_literals (by simp) (List.all_eq_true.mpr ((workspace.append slash).append plain))
  have line : a.cleanUp = " ".intercalate ["rm", "-rf", a.sources, a.download] := by
    rw [← String.toList_inj]
    simp [cleanUp]
  rw [line]
  refine Shell.splitWords?_intercalate (.cons ?_ (.cons ?_ (.cons (spelled _ directory) (.cons (spelled _ file) .nil))))
  · exact Shell.spells_literals (by decide) (by decide)
  · exact Shell.spells_literals (by decide) (by decide)

-- The archive is told by a name of its own, so it lies below the working directory. So does the directory
-- that is removed with it, if the name that it was given, or that of the archive without its ending, leads
-- down from there. The texts reach the command as they are, so they are such that a shell takes as they are.
theorem cleanUp_below_workspace (fetched : ofUrl t block link override = .ok a)
    (plain : ∀ text ∈ t.workingDirectory :: Text.afterLast '/' link :: override.toList, Shell.Plain text) :
    let workspace := Text.dropTrailing '/' t.workingDirectory
    Shell.splitWords? a.cleanUp = some ["rm", "-rf", a.sources, a.download] ∧ Path.Below workspace a.download ∧
      (∀ given, override = some given →
        a.sources = workspace ++ "/" ++ given ∧ (Path.Below workspace a.sources ↔ Path.Descends given)) ∧
      (override = none → ∀ stem, (∃ kind ∈ endings, Text.afterLast '/' link = stem ++ kind.1) →
        a.sources = workspace ++ "/" ++ stem ∧ (Path.IsName stem → Path.Below workspace a.sources)) := by
  obtain ⟨stem, compression, cut, rfl⟩ := ofUrl_ok fetched
  obtain ⟨ending, kind, file⟩ := splitEnding?_eq_some_iff.mp cut
  have single : '/' ∉ (Text.afterLast '/' link).toList := (Text.afterLast_cases '/' link).1
  have archive : IsArchive (Text.afterLast '/' link) := splitEnding?_isSome_iff.mp (by rw [cut]; rfl)
  obtain ⟨directory, plain⟩ := List.forall_mem_cons.mp plain
  obtain ⟨name, overriding⟩ := List.forall_mem_cons.mp plain
  refine ⟨splitWords?_cleanUp ?workspace ?directory name, ?file, ?given, ?named⟩
  case workspace => exact fun c member => directory c (Text.mem_dropTrailing member)
  case directory =>
    cases override with
    | some text => exact overriding text (by simp)
    | none =>
      intro c member
      refine name c ?_
      rw [file, String.toList_append]
      exact List.mem_append_left _ member
  case file => exact ⟨_, rfl, Path.descends_name single (isName_of_isArchive archive)⟩
  case given =>
    rintro given rfl
    exact ⟨rfl, Path.below_append_iff _ given⟩
  case named =>
    rintro rfl other ⟨kind, member, whole⟩
    have same : other = stem := by
      have told := splitEnding?_eq_some_iff.mpr ⟨kind.1, member, whole⟩
      exact congrArg Prod.fst (Option.some.inj (told.symm.trans cut))
    subst same
    refine ⟨rfl, fun name => ⟨_, rfl, Path.descends_name (fun inside => single ?_) name⟩⟩
    rw [whole, String.toList_append]
    exact List.mem_append_left _ inside

theorem cleanUp_below_workspace_named :
    let t := { Target.ofFormat .docker with workingDirectory := "/scratch//" }
    let link := "https://example.com/v1.3/zlib-1.3.tar.gz"
    ∃ a, ofUrl t "zlib" link none = .ok a ∧
      Shell.splitWords? a.cleanUp = some ["rm", "-rf", a.sources, a.download] ∧
      a.sources = "/scratch/zlib-1.3" ∧ Path.Below "/scratch" a.sources ∧ Path.Below "/scratch" a.download := by
  intro t link
  have fetched : ofUrl t "zlib" link none = .ok ⟨link, "/scratch", "zlib-1.3.tar.gz", "zlib-1.3", .gzip⟩ := by
    decide +kernel
  have workspace : Text.dropTrailing '/' t.workingDirectory = "/scratch" := by decide +kernel
  have directory : Shell.Plain t.workingDirectory := by decide +kernel
  have file : Shell.Plain (Text.afterLast '/' link) := by decide +kernel
  obtain ⟨words, download, -, named⟩ :=
    cleanUp_below_workspace fetched (List.forall_mem_cons.mpr ⟨directory, List.forall_mem_singleton.mpr file⟩)
  obtain ⟨sources, below⟩ := named rfl "zlib-1.3" ⟨(".tar.gz", .gzip), by decide, by decide +kernel⟩
  rw [workspace] at download below
  exact ⟨_, fetched, words, by decide, below (by decide), download⟩

-- A directory that is given can lead back out of the working directory.
theorem cleanUp_leaves_workspace :
    let t := Target.ofFormat .docker
    ∃ a, ofUrl t "hello" "https://example.com/hello-2.12.tar.gz" (some "..") = .ok a ∧
      a.cleanUp = "rm -rf /var/tmp/.. /var/tmp/hello-2.12.tar.gz" ∧ ¬ Path.Below "/var/tmp" "/var/tmp/.." := by
  exact ⟨⟨"https://example.com/hello-2.12.tar.gz", "/var/tmp", "hello-2.12.tar.gz", "..", .gzip⟩,
    by decide +kernel, by decide, by decide⟩

end

end Archive

end ContainerRecipe
