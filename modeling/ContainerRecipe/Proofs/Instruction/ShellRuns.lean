import ContainerRecipe.Proofs.Instruction.Merged
import ContainerRecipe.Proofs.Render.Dockerfile

namespace ContainerRecipe

namespace Dockerfile

-- The instruction that holds some commands; none if there are no commands.
def runText (commands : List String) : String :=
  if commands.isEmpty then "" else "RUN " ++ " && \\\n    ".intercalate commands

theorem write_shell (s : Shell) : (write (.shell s)).result = .ok (runText s.effective) := by
  unfold write
  rw [result_after_ignoreApp]
  rfl

section

-- How a path leads from one directory to another is up to the image.
variable {Directory : Type} (follow : Directory → String → Directory)

-- A command `cd D` enters a directory, and others stay where they are.
def enter (here : Directory) (command : String) : Directory :=
  match Shell.splitWords? command with
  | some ["cd", path] => follow here path
  | _ => here

-- Where the commands of one instruction end up.
def leave (here : Directory) (commands : List String) : Directory := commands.foldl (enter follow) here

-- The commands of one instruction, each with the directory that it starts in.
def starts (here : Directory) : List String → List (String × Directory)
  | [] => []
  | command :: rest => (command, here) :: starts (enter follow here command) rest

theorem starts_append (here : Directory) (first second : List String) :
    starts follow here (first ++ second) =
      starts follow here first ++ starts follow (leave follow here first) second := by
  induction first generalizing here with
  | nil => rfl
  | cons command rest ih =>
    rw [List.cons_append, starts, ih, starts]
    rfl

theorem head?_starts (here : Directory) (commands : List String) :
    (starts follow here commands).head? = commands.head?.map fun command => (command, here) := by
  cases commands <;> rfl

-- Each shell that a command of a later one follows comes back to where it starts.
def Returns (workdir : Directory) (ss : List Shell) : Prop :=
  ∀ before s after, ss = before ++ s :: after → (∃ later ∈ after, later.effective ≠ []) →
    leave follow workdir s.effective = workdir

theorem returns_cons (workdir : Directory) (s : Shell) (rest : List Shell) :
    Returns follow workdir (s :: rest) ↔
      ((∃ later ∈ rest, later.effective ≠ []) → leave follow workdir s.effective = workdir) ∧
        Returns follow workdir rest := by
  constructor
  · intro returns
    refine ⟨returns [] s rest rfl, fun before t after split => ?_⟩
    exact returns (s :: before) t after (by rw [split, List.cons_append])
  · rintro ⟨first, others⟩ before t after split
    rcases before with _ | ⟨s', before⟩
    · obtain ⟨rfl, rfl⟩ := List.cons.inj split
      exact first
    · obtain ⟨-, tail⟩ := List.cons.inj split
      exact others before t after tail

-- The first command of several instructions starts where they all do.
theorem head?_starts_flatMap (workdir : Directory) (ss : List Shell) :
    (ss.flatMap fun s => starts follow workdir s.effective).head? =
      (ss.flatMap Shell.effective).head?.map fun command => (command, workdir) := by
  simp only [List.head?_flatMap, head?_starts, List.map_findSome?]
  rfl

theorem starts_flatMap_iff (workdir : Directory) (ss : List Shell) :
    starts follow workdir (ss.flatMap Shell.effective) =
      ss.flatMap (fun s => starts follow workdir s.effective) ↔ Returns follow workdir ss := by
  induction ss with
  | nil => simp [starts, Returns]
  | cons s rest ih =>
    rw [List.flatMap_cons, List.flatMap_cons, starts_append, List.append_cancel_left_eq, returns_cons]
    by_cases more : ∃ later ∈ rest, later.effective ≠ []
    · constructor
      · intro same
        -- The first of the later commands shows where the shell has ended.
        have first := congrArg List.head? same
        rw [head?_starts, head?_starts_flatMap] at first
        have back : leave follow workdir s.effective = workdir := by
          cases commands : rest.flatMap Shell.effective with
          | nil =>
            obtain ⟨later, member, given⟩ := more
            exact absurd (List.flatMap_eq_nil_iff.mp commands later member) given
          | cons command others => simpa [commands] using first
        rw [back] at same
        exact ⟨fun _ => back, ih.mp same⟩
      · rintro ⟨back, others⟩
        rw [back more]
        exact ih.mpr others
    · have empty : ∀ later ∈ rest, later.effective = [] := by simpa using more
      have nothing : rest.flatMap Shell.effective = [] := List.flatMap_eq_nil_iff.mpr empty
      rw [nothing] at ih ⊢
      exact ⟨fun same => ⟨fun later => absurd later more, ih.mp same⟩, fun ⟨_, others⟩ => ih.mpr others⟩

end

end Dockerfile

namespace HostScript

-- The lines that hold some commands; none if there are no commands.
def commandLines (fromRoot : Bool) (commands : List String) : List String :=
  if commands.isEmpty then [] else (if fromRoot then ["cd /"] else []) ++ commands

theorem write_shell (s : Shell) :
    (write (.shell s)).result = .ok ("\n".intercalate (commandLines s.fromRoot s.effective)) := rfl

theorem intercalate_ne_empty {lines : List String} (given : lines ≠ []) (solid : ∀ l ∈ lines, l ≠ "") :
    "\n".intercalate lines ≠ "" := by
  obtain ⟨l, rest, rfl⟩ := List.exists_cons_of_ne_nil given
  have first : l ≠ "" := solid l List.mem_cons_self
  cases rest with
  | nil => simpa using first
  | cons next more => simp [first]

theorem commandLines_solid (fromRoot : Bool) (s : Shell) :
    ∀ l ∈ commandLines fromRoot s.effective, l ≠ "" := by
  intro l member
  unfold commandLines at member
  split at member
  · cases member
  · rcases List.mem_append.mp member with root | command
    · split at root
      · rw [List.mem_singleton.mp root]
        decide
      · cases root
    · simpa using (List.mem_filter.mp command).2

-- Texts that are each joined of lines, joined without the empty ones.
theorem intercalate_texts {parts : List (List String)} (solid : ∀ lines ∈ parts, ∀ l ∈ lines, l ≠ "") :
    "\n".intercalate ((parts.map ("\n".intercalate ·)).filter (· ≠ "")) = "\n".intercalate parts.flatten := by
  induction parts with
  | nil => rfl
  | cons lines rest ih =>
    obtain ⟨here, others⟩ := List.forall_mem_cons.mp solid
    cases lines with
    | nil => simpa using ih others
    | cons l more =>
      have given : "\n".intercalate (l :: more) ≠ "" := intercalate_ne_empty (List.cons_ne_nil _ _) here
      rw [List.map_cons, List.filter_cons_of_pos (by simpa using given), List.flatten_cons]
      by_cases last : rest.flatten = []
      · have silent : (rest.map ("\n".intercalate ·)).filter (· ≠ "") = [] := by
          refine List.filter_eq_nil_iff.mpr fun text member => ?_
          obtain ⟨lines, found, rfl⟩ := List.mem_map.mp member
          simp [List.flatten_eq_nil_iff.mp last lines found]
        rw [last, silent, List.append_nil, String.intercalate_singleton]
      · have solidRest : ∀ l ∈ rest.flatten, l ≠ "" := by
          intro l member
          obtain ⟨lines, found, inside⟩ := List.mem_flatten.mp member
          exact others lines found l inside
        have told : (rest.map ("\n".intercalate ·)).filter (· ≠ "") ≠ [] := by
          intro silent
          have empty := ih others
          rw [silent, String.intercalate_nil] at empty
          exact intercalate_ne_empty last solidRest empty.symm
        rw [String.intercalate_append_of_ne_nil (List.cons_ne_nil _ _) last,
          String.intercalate_cons_of_ne_nil told, ih others]

-- The shells that have something to run.
def busy (ss : List Shell) : List Shell := ss.filter fun s => s.effective ≠ []

theorem flatMap_busy {f : Shell → List String} (silent : ∀ s : Shell, s.effective = [] → f s = [])
    (ss : List Shell) : (busy ss).flatMap f = ss.flatMap f := by
  induction ss with
  | nil => rfl
  | cons s rest ih =>
    unfold busy at ih ⊢
    by_cases idle : s.effective = []
    · rw [List.filter_cons_of_neg (by simpa using idle), ih, List.flatMap_cons, silent s idle, List.nil_append]
    · rw [List.filter_cons_of_pos (by simpa using idle), List.flatMap_cons, ih, List.flatMap_cons]

-- The lines of several shells one after another.
def separateLines (fromRoot : Bool) (ss : List Shell) : List String :=
  ss.flatMap fun s => commandLines fromRoot s.effective

theorem commandLines_false (commands : List String) : commandLines false commands = commands := by
  cases commands <;> rfl

-- Each of the busy shells goes to the root by itself.
theorem separateLines_true (ss : List Shell) :
    separateLines true ss = (busy ss).flatMap fun s => "cd /" :: s.effective := by
  rw [separateLines, ← flatMap_busy fun s idle => by rw [idle]; rfl]
  refine List.flatMap_congr fun s member => ?_
  have given : s.effective ≠ [] := by simpa using (List.mem_filter.mp member).2
  simp [commandLines, given]

-- Lines are counted as they are read, for a command can hold several.
theorem length_lines_cd (ss : List Shell) :
    ((ss.flatMap fun s => "cd /" :: s.effective).flatMap Dockerfile.textLines).length =
      ((ss.flatMap Shell.effective).flatMap Dockerfile.textLines).length + ss.length := by
  have root : Dockerfile.textLines "cd /" = ["cd /"] := Dockerfile.lines_of_single (by decide)
  induction ss with
  | nil => rfl
  | cons s rest ih =>
    simp only [List.flatMap_cons, List.flatMap_append, List.length_append, List.length_cons, root, ih,
      List.length_nil]
    omega

theorem separate_eq_iff (fromRoot : Bool) (ss : List Shell) :
    "\n".intercalate (commandLines fromRoot (ss.flatMap Shell.effective)) =
        "\n".intercalate (separateLines fromRoot ss) ↔
      fromRoot = false ∨ (busy ss).length ≤ 1 := by
  cases fromRoot with
  | false => simp [separateLines, commandLines_false]
  | true =>
    rw [separateLines_true, ← flatMap_busy fun _ idle => idle]
    cases shells : busy ss with
    | nil => simp [commandLines]
    | cons s rest =>
      have given : s.effective ≠ [] := by
        have member : s ∈ busy ss := shells ▸ List.mem_cons_self
        simpa using (List.mem_filter.mp member).2
      have merged : commandLines true ((s :: rest).flatMap Shell.effective) =
          "cd /" :: (s :: rest).flatMap Shell.effective := by
        simp [commandLines, given]
      rw [merged]
      constructor
      · intro same
        have lines := congrArg Dockerfile.textLines same
        rw [Dockerfile.lines_intercalate (List.cons_ne_nil _ _),
          Dockerfile.lines_intercalate (by simp)] at lines
        have counts := congrArg List.length lines
        rw [length_lines_cd, List.flatMap_cons, List.length_append,
          Dockerfile.lines_of_single (by decide)] at counts
        right
        simp only [List.length_cons, List.length_nil] at counts ⊢
        omega
      · rintro (never | few)
        · cases never
        · obtain rfl : rest = [] := by simpa using few
          simp

end HostScript

namespace Instruction

theorem mergeRun_shells {ss : List Shell} (given : ss ≠ []) :
    ∃ merged, (mergeRun (ss.map .shell)).result = .ok (.shell merged) ∧
      merged.effective = ss.flatMap Shell.effective := by
  match ss with
  | [] => exact absurd rfl given
  | [s] => exact ⟨s, rfl, by simp⟩
  | first :: second :: rest =>
    have folded := mergeRun_of_merge (List.cons_ne_nil _ _) (merge_shells first.app first (second :: rest))
    refine ⟨_, congrArg Outcome.result folded, ?_⟩
    exact List.filter_flatMap

-- What merging a run of shells makes of their `RUN` instructions, and when each command starts in the
-- same directory as without merging.
theorem merged_shells (items : List Instruction) (ss : List Shell) (run : ss.map .shell ∈ runs items)
    {Directory : Type} (follow : Directory → String → Directory) (workdir : Directory) :
    ∃ merged, (mergeRun (ss.map .shell)).result = .ok (.shell merged) ∧
      (Dockerfile.write (.shell merged)).result =
        .ok (Dockerfile.runText (ss.flatMap Shell.effective)) ∧
      (Dockerfile.starts follow workdir merged.effective =
          ss.flatMap (fun s => Dockerfile.starts follow workdir s.effective) ↔
        Dockerfile.Returns follow workdir ss) := by
  have given : ss ≠ [] := by
    intro empty
    exact runs_nonempty items _ run (by rw [empty, List.map_nil])
  obtain ⟨merged, accepted, commands⟩ := mergeRun_shells given
  refine ⟨merged, accepted, ?_, ?_⟩
  · rw [Dockerfile.write_shell, commands]
  · rw [commands]
    exact Dockerfile.starts_flatMap_iff follow workdir ss

-- A shell that goes back to the root before the next one.
theorem merged_shells_back :
    let ss : List Shell := [{ commands := ["cd /a", "make", "cd /"] }, { commands := ["make check"] }]
    let follow (_ : String) (path : String) : String := path
    ss.map .shell ∈ runs (ss.map .shell) ∧
      ∃ merged, (mergeRun (ss.map .shell)).result = .ok (.shell merged) ∧
        Dockerfile.starts follow "/" merged.effective =
          ss.flatMap fun s => Dockerfile.starts follow "/" s.effective := by
  intro ss follow
  have run : ss.map .shell ∈ runs (ss.map .shell) := by decide +kernel
  obtain ⟨merged, accepted, -, same⟩ := merged_shells (ss.map .shell) ss run follow "/"
  refine ⟨run, merged, accepted, same.mpr ?_⟩
  rintro before s after split ⟨later, member, -⟩
  rcases before with _ | ⟨first, _ | ⟨second, longer⟩⟩
  · obtain ⟨rfl, -⟩ := List.cons.inj split
    decide +kernel
  · obtain ⟨-, rest⟩ := List.cons.inj split
    obtain ⟨-, rfl⟩ := List.cons.inj rest
    cases member
  · simp [ss] at split

-- The next shell starts where the one before it has gone.
theorem merged_shells_differ :
    let ss : List Shell := [{ commands := ["cd /a"] }, { commands := ["make"] }]
    let merged : Shell := { commands := ["cd /a", "make"] }
    let follow (_ : String) (path : String) : String := path
    ss.map .shell ∈ runs (ss.map .shell) ∧ (mergeRun (ss.map .shell)).result = .ok (.shell merged) ∧
      Dockerfile.starts follow "/" merged.effective ≠
        ss.flatMap fun s => Dockerfile.starts follow "/" s.effective := by
  intro ss merged follow
  exact ⟨by decide +kernel, by decide +kernel, by decide +kernel⟩

-- The shells of a run all start from the root, or none of them does, and so does the merged one.
theorem fromRoot_of_run {ss : List Shell} (run : IsRun (ss.map .shell))
    (accepted : (mergeRun (ss.map .shell)).result = .ok (.shell merged)) :
    ∀ s ∈ ss, s.fromRoot = merged.fromRoot := by
  match ss with
  | [] => simp
  | [s] =>
    cases accepted
    simp
  | first :: second :: rest =>
    have folded := mergeRun_of_merge (List.cons_ne_nil _ _) (merge_shells first.app first (second :: rest))
    have same : first.fromRoot = merged.fromRoot := by
      cases (congrArg Outcome.result folded).symm.trans accepted
      rfl
    refine List.forall_mem_cons.mpr ⟨same, fun s member => ?_⟩
    have joined := (List.pairwise_cons.mp run.pairwise).1 (.shell s) (List.mem_map_of_mem member)
    cases joins_iff.mp joined.1 with
    | shells app fromRoot => exact fromRoot.symm.trans same

-- What merging a run of shells makes of their lines in a bash script, and when these are the same lines as
-- without merging.
theorem merged_shell_lines (items : List Instruction) (ss : List Shell)
    (run : ss.map .shell ∈ runs items) :
    ∃ merged texts, (mergeRun (ss.map .shell)).result = .ok (.shell merged) ∧
      List.Forall₂ (fun s text => (HostScript.write (.shell s)).result = .ok text) ss texts ∧
      (∀ s ∈ ss, s.fromRoot = merged.fromRoot) ∧
      (HostScript.write (.shell merged)).result = .ok ("\n".intercalate
        (HostScript.commandLines merged.fromRoot (ss.flatMap Shell.effective))) ∧
      ((HostScript.write (.shell merged)).result = .ok ("\n".intercalate (texts.filter (· ≠ ""))) ↔
        merged.fromRoot = false ∨ (ss.filter fun s => s.effective ≠ []).length ≤ 1) := by
  have isRun := runs_isRun items _ run
  obtain ⟨merged, accepted, commands⟩ := mergeRun_shells (List.map_eq_nil_iff.not.mp isRun.ne_nil)
  have root := fromRoot_of_run isRun accepted
  have written := HostScript.write_shell merged
  rw [commands] at written
  let parts := ss.map fun s => HostScript.commandLines merged.fromRoot s.effective
  have texts : "\n".intercalate ((parts.map ("\n".intercalate ·)).filter (· ≠ "")) =
      "\n".intercalate (HostScript.separateLines merged.fromRoot ss) := by
    refine HostScript.intercalate_texts fun lines member => ?_
    obtain ⟨s, -, rfl⟩ := List.mem_map.mp member
    exact HostScript.commandLines_solid merged.fromRoot s
  refine ⟨merged, parts.map ("\n".intercalate ·), accepted, ?_, root, written, ?_⟩
  · rw [List.map_map, List.forall₂_map_right_iff, List.forall₂_same]
    intro s member
    rw [HostScript.write_shell, root s member]
    rfl
  · rw [written, texts, Except.ok.injEq]
    exact HostScript.separate_eq_iff merged.fromRoot ss

-- Next to a shell that has nothing to run.
theorem merged_shell_lines_idle :
    let ss : List Shell :=
      [{ commands := ["cd a", "make"], fromRoot := true }, { commands := [""], fromRoot := true }]
    ss.map .shell ∈ runs (ss.map .shell) ∧
      ∃ merged texts, (mergeRun (ss.map .shell)).result = .ok (.shell merged) ∧
        List.Forall₂ (fun s text => (HostScript.write (.shell s)).result = .ok text) ss texts ∧
        (HostScript.write (.shell merged)).result = .ok ("\n".intercalate (texts.filter (· ≠ ""))) := by
  intro ss
  have run : ss.map .shell ∈ runs (ss.map .shell) := by decide +kernel
  obtain ⟨merged, texts, accepted, written, -, -, same⟩ := merged_shell_lines (ss.map .shell) ss run
  exact ⟨run, merged, texts, accepted, written, same.mpr (.inr (by decide +kernel))⟩

-- The second shell does not go back to the root any more.
theorem merged_shell_lines_differ :
    let ss : List Shell :=
      [{ commands := ["cd a"], fromRoot := true }, { commands := ["make"], fromRoot := true }]
    let merged : Shell := { commands := ["cd a", "make"], fromRoot := true }
    let texts := ["cd /\ncd a", "cd /\nmake"]
    ss.map .shell ∈ runs (ss.map .shell) ∧ (mergeRun (ss.map .shell)).result = .ok (.shell merged) ∧
      ss.map (fun s => (HostScript.write (.shell s)).result) = texts.map .ok ∧
      (HostScript.write (.shell merged)).result ≠ .ok ("\n".intercalate (texts.filter (· ≠ ""))) := by
  intro ss merged texts
  exact ⟨by decide +kernel, by decide +kernel, by decide +kernel, by decide +kernel⟩

end Instruction

end ContainerRecipe
