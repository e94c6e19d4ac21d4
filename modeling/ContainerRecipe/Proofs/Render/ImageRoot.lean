import ContainerRecipe.Proofs.Render.CopySections
import ContainerRecipe.Proofs.Text.Route

namespace ContainerRecipe.Definition

-- A text that leads on from the image root when it is put behind it: nothing, or a path from the root.
def Rooted (path : String) : Prop := path = "" ∨ ∃ rest, path = "/" ++ rest

-- The directory that a copy puts the sources of an entry into. Several sources are put into the destination,
-- and so is a single one unless a name stands at the end, which is then the name of the copy.
def receiving? (e : CopyEntry) : Option Path :=
  if 1 < e.sources.length ∨ ¬ Path.IsName (Text.afterLast '/' e.destination) then
    Path.within? e.destination
  else (Path.within? e.destination).map List.dropLast

theorem Rooted.of_append {front back : String} (rooted : Rooted (front ++ back)) : Rooted front := by
  rcases rooted with empty | ⟨rest, whole⟩
  · exact .inl (String.append_eq_empty_iff.mp empty).1
  · by_cases given : front = ""
    · exact .inl given
    · have spelled : front.toList ++ back.toList = '/' :: rest.toList := by
        simpa using congrArg String.toList whole
      cases letters : front.toList with
      | nil => exact absurd (String.toList_eq_nil_iff.mp letters) given
      | cons c cs =>
        rw [letters, List.cons_append, List.cons.injEq] at spelled
        refine .inr ⟨String.ofList cs, ?_⟩
        rw [← String.toList_inj, letters, spelled.1]
        simp

theorem Rooted.dropTrailing (rooted : Rooted path) : Rooted (Text.dropTrailing '/' path) := by
  obtain ⟨n, whole⟩ := Text.dropTrailing_append '/' path
  rw [whole] at rooted
  exact rooted.of_append

-- The three ways in which the directory of an entry is told by its destination.
inductive Places (e : CopyEntry) : String → Prop where
  | inside (directory : 1 < e.sources.length ∨ Text.afterLast '/' e.destination = "") :
      Places e (Text.dropTrailing '/' e.destination)
  | beside (single : ¬ 1 < e.sources.length) (given : Text.afterLast '/' e.destination ≠ "")
      (whole : e.destination = parent ++ "/" ++ Text.afterLast '/' e.destination) :
      Places e (if parent = "" then "/" else parent)
  | root (single : ¬ 1 < e.sources.length) (bare : '/' ∉ e.destination.toList) : Places e "/"

theorem placement_places (e : CopyEntry) : Places e (placement e) := by
  unfold placement
  split
  · rename_i directory
    rcases Bool.or_eq_true_iff.mp directory with several | slash
    · exact .inside (.inl (of_decide_eq_true several))
    · obtain ⟨before, spelled⟩ := List.isSuffixOf_iff_suffix.mp slash
      exact .inside (.inr (Text.afterLast_of_parts spelled.symm List.not_mem_nil))
  · rename_i other
    rw [Bool.or_eq_true_iff, not_or, decide_eq_true_iff] at other
    obtain ⟨single, open_⟩ := other
    split
    · rename_i parent last cut
      obtain ⟨spelled, apart⟩ := Text.cutLast?_eq_some_iff.mp cut
      have named := Text.afterLast_of_parts spelled apart
      have given : Text.afterLast '/' e.destination ≠ "" := by
        rw [named]
        intro empty
        have nothing : last = [] := by simpa using congrArg String.toList empty
        exact open_ (List.isSuffixOf_iff_suffix.mpr ⟨parent, by simp [spelled, nothing]⟩)
      have whole : e.destination = String.ofList parent ++ "/" ++ Text.afterLast '/' e.destination := by
        rw [named, ← String.toList_inj, spelled]
        simp
      have same : (if parent.isEmpty then "/" else String.ofList parent) =
          if String.ofList parent = "" then "/" else String.ofList parent := by
        cases parent <;> simp
      rw [same]
      exact .beside single given whole
    · rename_i uncut
      exact .root single (Text.cutLast?_eq_none_iff.mp uncut)

-- What holds of the directory that is made for an entry below the image root.
structure Confined (e : CopyEntry) (directory : String) : Prop where
  rooted : Rooted directory
  inside : (Path.within? e.destination).isSome → (Path.within? directory).isSome
  receiving : 1 < e.sources.length ∨ Text.afterLast '/' e.destination ≠ ".." →
    Path.within? directory = receiving? e

theorem Places.confined (places : Places e directory) (rooted : Rooted e.destination) : Confined e directory := by
  cases places with
  | inside several =>
    refine ⟨rooted.dropTrailing, ?_, fun _ => ?_⟩
    · rw [Path.within?_dropTrailing]
      exact id
    · have whole : 1 < e.sources.length ∨ ¬ Path.IsName (Text.afterLast '/' e.destination) :=
        several.imp_right fun empty name => name.1 empty
      rw [Path.within?_dropTrailing, receiving?, if_pos whole]
  | @beside parent single given whole =>
    have same : Path.within? (if parent = "" then "/" else parent) = Path.within? parent := by
      split
      · rename_i empty
        rw [empty]
        rfl
      · rfl
    refine ⟨?_, ?_, ?_⟩
    · split
      · exact .inr ⟨"", rfl⟩
      · rw [whole, String.append_assoc] at rooted
        exact rooted.of_append
    · rw [same, whole]
      exact Path.within?_of_append
    · intro held
      have down := held.resolve_left single
      have clear := (Text.afterLast_cases '/' e.destination).1
      have led := congrArg Path.within? whole
      rw [same, receiving?]
      by_cases point : Text.afterLast '/' e.destination = "."
      · rw [if_pos (.inr fun name => name.2.1 point), led, Path.within?_append_same _ clear (.inr point)]
      · have name : Path.IsName (Text.afterLast '/' e.destination) := ⟨given, point, down⟩
        rw [if_neg (not_or.mpr ⟨single, not_not_intro name⟩), led, Path.within?_append_name _ clear name]
        cases Path.within? parent <;> simp
  | root single bare =>
    have empty : e.destination = "" := by
      rcases rooted with empty | ⟨rest, whole⟩
      · exact empty
      · exact absurd (by simp [whole]) bare
    refine ⟨.inr ⟨"", rfl⟩, fun _ => by decide, fun _ => ?_⟩
    have unnamed : ¬ Path.IsName (Text.afterLast '/' e.destination) := by
      rw [empty]
      decide
    rw [receiving?, if_pos (.inr unnamed), empty]
    decide

-- The commands under `%setup` for a copy from the build host make a directory and copy to the destination,
-- both given by texts behind the image root. Where a destination is the root or starts below it, so does the
-- directory, and it is the one that the sources are put into, unless a single source is copied to a path that
-- ends by going back. A destination that does not lead out of the image has a directory that does not either.
theorem setup_within_image (t : Target) {c : Copy} (fromHost : c.source = none) :
    let staged := c.entries.filter (Staged t.singularityVersion c)
    let listed := c.entries.filter fun e => ¬ Staged t.singularityVersion c e
    ∃ commands, List.Forall₂ (fun e lines => Stages c.exclude e lines ∧ ∃ directory copying,
          lines = ["mkdir -p " ++ imageRoot ++ directory, copying ++ " " ++ imageRoot ++ e.destination] ∧
          (Rooted e.destination → Confined e directory)) staged commands ∧
      write t (.copy c) = pure ("\n".intercalate (sectionLines "%setup" commands.flatten ++
        sectionLines (filesTitle c.app)
          (listed.flatMap fun e => e.sources.map fun source => source ++ " " ++ e.destination))) := by
  intro staged listed
  refine ⟨staged.map (setupLines c.exclude), ?confined, ?written⟩
  case confined =>
    rw [List.forall₂_map_right_iff, List.forall₂_same]
    intro e _
    refine ⟨setupLines_stages c.exclude e, placement e, _, rfl, fun rooted => ?_⟩
    exact (placement_places e).confined rooted
  case written =>
    rw [write_fromHost fromHost, List.flatMap_def]
    rfl

-- A path that goes back on the way, and a directory for two sources.
theorem setup_within_image_excluding :
    let t := Target.ofFormat .singularity
    let c : Copy := { entries := [⟨["a", "b"], "/opt/x/../y/"⟩], exclude := ["*.o"] }
    c.source = none ∧ Rooted "/opt/x/../y/" ∧ ∃ directory, Rooted directory ∧
      Path.within? directory = some ["opt", "y"] ∧ write t (.copy c) = pure ("\n".intercalate
        (sectionLines "%setup" ["mkdir -p " ++ imageRoot ++ directory,
          "rsync -a --exclude=*.o a b " ++ imageRoot ++ "/opt/x/../y/"])) := by
  intro t c
  have rooted : Rooted "/opt/x/../y/" := .inr ⟨"opt/x/../y/", by decide⟩
  obtain ⟨commands, confined, written⟩ := setup_within_image t (c := c) rfl
  have staged : c.entries.filter (Staged t.singularityVersion c) = c.entries := by decide +kernel
  have listed : (c.entries.filter fun e => ¬ Staged t.singularityVersion c e) = [] := by decide +kernel
  have nothing : sectionLines (filesTitle c.app) [] = [] := rfl
  rw [staged] at confined
  rw [listed, List.flatMap_nil, nothing, List.append_nil] at written
  cases confined with
  | cons first rest =>
    cases rest
    obtain ⟨stages, directory, copying, lines, held⟩ := first
    obtain ⟨starts, -, receives⟩ := held rooted
    refine ⟨rfl, rooted, directory, starts, (receives (.inl (by decide))).trans (by decide), ?_⟩
    cases stages with
    | copied _ whole => cases whole
    | synced _ part =>
      obtain ⟨made, -⟩ := List.cons.inj lines
      rw [made] at written
      exact written

-- A path that goes back further than it led is put behind the root as it is given, and so is one that does not
-- start from the root.
theorem setup_leaves_image :
    let c : Copy := { entries := [⟨["a"], "/opt/../.."⟩, ⟨["b"], "data"⟩], exclude := ["*.o"] }
    write (Target.ofFormat .singularity) (.copy c) = pure ("\n".intercalate
        ["%setup", "    mkdir -p " ++ imageRoot ++ "/opt/..",
          "    rsync -a --exclude=*.o a " ++ imageRoot ++ "/opt/../..", "    mkdir -p " ++ imageRoot ++ "/",
          "    rsync -a --exclude=*.o b " ++ imageRoot ++ "data"]) ∧
      Path.within? "/opt/../.." = none ∧ ¬ Rooted "data" := by
  intro c
  refine ⟨?_, by decide, ?_⟩
  · rw [write_fromHost rfl]
    exact congrArg (fun lines => pure ("\n".intercalate lines)) (by decide +kernel)
  · rintro (empty | ⟨rest, same⟩)
    · exact absurd empty (by decide)
    · simpa using congrArg String.toList same

end ContainerRecipe.Definition
