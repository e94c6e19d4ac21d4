import ContainerRecipe.Packages.Apt

namespace ContainerRecipe

section

variable {α β : Type} {needs serves : α → Prop}

-- Each member with a need stands behind one that serves it.
def Preceded (needs serves : α → Prop) (xs : List α) : Prop :=
  ∀ before x after, xs = before ++ x :: after → needs x → ∃ y ∈ before, serves y

@[simp] theorem preceded_nil : Preceded needs serves [] := by
  intro before x after split
  simp at split

@[simp] theorem preceded_cons {x : α} {xs : List α} : Preceded needs serves (x :: xs) ↔
    ¬ needs x ∧ (serves x ∨ Preceded needs serves xs) := by
  constructor
  · intro ordered
    refine ⟨fun need => ?_, ?_⟩
    · obtain ⟨y, never, -⟩ := ordered [] x xs rfl need
      exact absurd never List.not_mem_nil
    · by_cases first : serves x
      · exact .inl first
      · refine .inr fun before y after split need => ?_
        obtain ⟨z, member, served⟩ := ordered (x :: before) y after (by rw [split, List.cons_append]) need
        rcases List.mem_cons.mp member with rfl | earlier
        · exact absurd served first
        · exact ⟨z, earlier, served⟩
  · rintro ⟨free, later⟩ before y after split need
    cases before with
    | nil =>
      cases split
      exact absurd need free
    | cons z earlier =>
      rw [List.cons_append, List.cons.injEq] at split
      obtain ⟨rfl, split⟩ := split
      rcases later with served | ordered
      · exact ⟨x, List.mem_cons_self, served⟩
      · obtain ⟨z, member, served⟩ := ordered earlier y after split need
        exact ⟨z, List.mem_cons_of_mem _ member, served⟩

theorem preceded_append {xs ys : List α} : Preceded needs serves (xs ++ ys) ↔
    Preceded needs serves xs ∧ ((∃ x ∈ xs, serves x) ∨ Preceded needs serves ys) := by
  induction xs with
  | nil => simp
  | cons x rest ih =>
    simp only [List.cons_append, preceded_cons, ih, List.mem_cons, exists_eq_or_imp]
    by_cases first : serves x
    · simp [first]
    · simp [first, and_assoc]

theorem preceded_of_free {xs : List α} (free : ∀ x ∈ xs, ¬ needs x) : Preceded needs serves xs := by
  rintro before x after rfl need
  exact absurd need (free x (by simp))

theorem preceded_iff_free {xs : List α} (unserved : ∀ x ∈ xs, ¬ serves x) :
    Preceded needs serves xs ↔ ∀ x ∈ xs, ¬ needs x := by
  refine ⟨fun ordered x member need => ?_, preceded_of_free⟩
  obtain ⟨before, after, rfl⟩ := List.append_of_mem member
  obtain ⟨y, earlier, served⟩ := ordered before x after rfl need
  exact unserved y (List.mem_append_left _ earlier) served

-- A list that is empty if there is nothing to do.
theorem unless_idle (before : List α) (given : List β) (whole : List α) :
    before = [] ∧ given = [] ∧ (if before.isEmpty && given.isEmpty then [] else whole) = [] ∨
      (before ≠ [] ∨ given ≠ []) ∧ (if before.isEmpty && given.isEmpty then [] else whole) = whole := by
  cases before with
  | cons first rest => exact .inr ⟨.inl (List.cons_ne_nil first rest), rfl⟩
  | nil =>
    cases given with
    | nil => exact .inl ⟨rfl, rfl, rfl⟩
    | cons first rest => exact .inr ⟨.inr (List.cons_ne_nil first rest), rfl⟩

theorem eq_nil_iff_idle {before middle whole : List α} {given : List β} {last : α}
    (told : before = [] ∧ given = [] ∧ whole = [] ∨
      (before ≠ [] ∨ given ≠ []) ∧ whole = before ++ middle ++ [last]) :
    whole = [] ↔ given = [] ∧ before = [] := by
  rcases told with ⟨nothing, none, rfl⟩ | ⟨something, rfl⟩
  · exact iff_of_true rfl ⟨none, nothing⟩
  · refine iff_of_false (by simp) ?_
    rintro ⟨none, nothing⟩
    exact something.elim (absurd nothing) (absurd none)

end

namespace Apt

section

-- All that is done before the packages are installed.
def setup (r : PackageRequest) : List Step :=
  keySteps r.aptKeys ++ ppaSteps r.aptKeys r.aptPpas ++ r.aptRepositories.map .addRepository

theorem steps_cases (r : PackageRequest) : setup r = [] ∧ r.packages .deb = [] ∧ steps r = [] ∨
    (setup r ≠ [] ∨ r.packages .deb ≠ []) ∧ steps r = setup r ++ installSteps (r.packages .deb) ++ [.cleanUp] :=
  unless_idle (setup r) (r.packages .deb) _

variable {needs serves : Step → Prop}

-- Nothing but the set-up has a need that counts.
theorem preceded_steps {r : PackageRequest} (update : ¬ needs .update)
    (install : ∀ packages, ¬ needs (.install packages)) (cleanUp : ¬ needs .cleanUp) :
    Preceded needs serves (steps r) ↔ Preceded needs serves (setup r) := by
  have rest : Preceded needs serves (installSteps (r.packages .deb) ++ [.cleanUp]) := by
    refine preceded_of_free (List.forall_mem_append.mpr ⟨?_, List.forall_mem_singleton.mpr cleanUp⟩)
    unfold installSteps
    split
    · exact List.forall_mem_nil _
    · exact List.forall_mem_cons.mpr ⟨update, List.forall_mem_singleton.mpr (install _)⟩
  rcases steps_cases r with ⟨empty, -, told⟩ | ⟨-, told⟩
  · rw [told, empty]
  · rw [told, List.append_assoc, preceded_append]
    exact and_iff_left (.inr rest)

theorem preceded_keySteps (keys : List String) (update : ¬ needs .update) (install : ¬ needs (.install keyTools))
    (tools : serves (.install keyTools)) : Preceded needs serves (keySteps keys) := by
  unfold keySteps
  split
  · exact preceded_nil
  · simp [update, install, tools]

theorem preceded_ppaSteps (keys ppas : List String) (update : ¬ needs .update)
    (install : ¬ needs (.install ppaTools)) (tools : serves (.install ppaTools)) :
    Preceded needs serves (ppaSteps keys ppas) := by
  unfold ppaSteps
  split
  · exact preceded_nil
  · split
    · simp [update, install, tools]
    · simp [install, tools]

theorem mem_keySteps {keys : List String} {s : Step} : s ∈ keySteps keys ↔
    keys ≠ [] ∧ (s = .update ∨ s = .install keyTools ∨ ∃ key ∈ keys, .addKey key = s) := by
  unfold keySteps
  split
  · rename_i none
    simp [List.isEmpty_iff.mp none]
  · rename_i some
    simp [mt List.isEmpty_iff.mpr some]

theorem mem_ppaSteps {keys ppas : List String} {s : Step} : s ∈ ppaSteps keys ppas ↔
    ppas ≠ [] ∧ (s = .update ∧ keys = [] ∨ s = .install ppaTools ∨ ∃ ppa ∈ ppas, .addPpa ppa = s) := by
  unfold ppaSteps
  split
  · rename_i none
    simp [List.isEmpty_iff.mp none]
  · rename_i some
    by_cases fresh : keys = []
    · simp [mt List.isEmpty_iff.mpr some, fresh]
    · simp [mt List.isEmpty_iff.mpr some, fresh]

end

section

-- A program that is called, with what stands before and behind its name.
structure Call where
  settings : String := ""
  program : String
  arguments : String

def Call.text (c : Call) : String := c.settings ++ c.program ++ " " ++ c.arguments

-- The programs of a step, each fed by the one before it.
def Step.calls : Step → List Call
  | .update => [{ program := "apt-get", arguments := "update -y" }]
  | .install packages =>
    [{ settings := "DEBIAN_FRONTEND=noninteractive ", program := "apt-get"
       arguments := installLine "install -y --no-install-recommends" packages }]
  | .addKey url =>
    [{ program := "wget", arguments := "-qO - " ++ url }, { program := "apt-key", arguments := "add -" }]
  | .addPpa ppa => [{ program := "apt-add-repository", arguments := ppa ++ " -y" }]
  | .addRepository repository =>
    if isUrl repository then
      [{ program := "wget", arguments := "-qO - " ++ repository ++ " >> " ++ sourcesList }]
    else [{ program := "echo", arguments := "\"" ++ repository ++ "\" >> " ++ sourcesList }]
  | .cleanUp => [{ program := "rm", arguments := "-rf /var/lib/apt/lists/*" }]

theorem intercalate_call (c : Call) : " | ".intercalate ([c].map Call.text) = c.text := by
  rw [List.map_singleton, String.intercalate_singleton]

theorem intercalate_calls (c d : Call) : " | ".intercalate ([c, d].map Call.text) = c.text ++ " | " ++ d.text := by
  rw [List.map_cons, List.map_singleton, String.intercalate_cons_cons, String.intercalate_singleton]

theorem Step.text_eq_calls (s : Step) : s.text = " | ".intercalate (s.calls.map Call.text) := by
  cases s with
  | update => decide
  | cleanUp => decide
  | install packages =>
    have words : "DEBIAN_FRONTEND=noninteractive apt-get install -y --no-install-recommends" =
        "DEBIAN_FRONTEND=noninteractive " ++ "apt-get" ++ " " ++ "install -y --no-install-recommends" := by
      decide +kernel
    rw [calls, intercalate_call]
    unfold text Call.text installLine
    dsimp only
    rw [words, String.append_assoc]
  | addKey url =>
    have fetched : "wget -qO - " = "" ++ "wget" ++ " " ++ "-qO - " := by decide
    have added : " | apt-key add -" = " | " ++ ("" ++ "apt-key" ++ " " ++ "add -") := by decide
    rw [calls, intercalate_calls]
    unfold text Call.text
    dsimp only
    rw [fetched, added]
    simp only [String.append_assoc]
  | addPpa ppa =>
    have words : "apt-add-repository " = "" ++ "apt-add-repository" ++ " " := by decide
    rw [calls, intercalate_call]
    unfold text Call.text
    dsimp only
    rw [words, String.append_assoc]
  | addRepository repository =>
    have fetched : "wget -qO - " = "" ++ "wget" ++ " " ++ "-qO - " := by decide
    have printed : "echo \"" = "" ++ "echo" ++ " " ++ "\"" := by decide
    unfold text calls
    dsimp only
    split
    · rw [intercalate_call, Call.text, fetched]
      simp only [String.append_assoc]
    · rw [intercalate_call, Call.text, printed]
      simp only [String.append_assoc]

def Step.Runs (program : String) (s : Step) : Prop := ∃ c ∈ s.calls, c.program = program

def Step.Installs (package : String) (s : Step) : Prop := ∃ packages, s = .install packages ∧ package ∈ packages

variable {s : Step}

@[simp] theorem runs_wget_iff : s.Runs "wget" ↔
    (∃ url, s = .addKey url) ∨ ∃ repository, s = .addRepository repository ∧ isUrl repository = true := by
  unfold Step.Runs Step.calls
  cases s with
  | addRepository repository => by_cases url : isUrl repository <;> simp [url]
  | _ => simp

@[simp] theorem runs_aptKey_iff : s.Runs "apt-key" ↔ ∃ url, s = .addKey url := by
  unfold Step.Runs Step.calls
  cases s with
  | addRepository repository => by_cases url : isUrl repository <;> simp [url]
  | _ => simp

@[simp] theorem runs_addRepository_iff : s.Runs "apt-add-repository" ↔ ∃ ppa, s = .addPpa ppa := by
  unfold Step.Runs Step.calls
  cases s with
  | addRepository repository => by_cases url : isUrl repository <;> simp [url]
  | _ => simp

-- Nothing but the tools for keys brings wget.
theorem exists_installs_wget_iff {keys ppas : List String} :
    (∃ s ∈ keySteps keys ++ ppaSteps keys ppas, s.Installs "wget") ↔ keys ≠ [] := by
  constructor
  · rintro ⟨s, member, packages, rfl, brought⟩
    rcases List.mem_append.mp member with key | ppa
    · exact (mem_keySteps.mp key).1
    · simp only [mem_ppaSteps, reduceCtorEq, false_and, Step.install.injEq, and_false, exists_false, or_false,
        false_or] at ppa
      rw [ppa.2] at brought
      exact absurd brought (by decide)
  · intro some
    exact ⟨.install keyTools, List.mem_append_left _ (mem_keySteps.mpr ⟨some, .inr (.inl rfl)⟩), _, rfl, by decide⟩

theorem aptKey_preceded (r : PackageRequest) :
    Preceded (Step.Runs "apt-key") (fun s => s.Installs "wget" ∧ s.Installs "gnupg") (steps r) := by
  rw [preceded_steps (by simp) (by simp) (by simp), setup, preceded_append, preceded_append]
  refine ⟨⟨?own, .inr (preceded_of_free ?ppas)⟩, .inr (preceded_of_free ?repositories)⟩
  case own =>
    exact preceded_keySteps _ (by simp) (by simp) ⟨⟨_, rfl, by decide⟩, _, rfl, by decide⟩
  case ppas =>
    intro s member runs
    obtain ⟨url, rfl⟩ := runs_aptKey_iff.mp runs
    simp [mem_ppaSteps] at member
  case repositories =>
    intro s member runs
    obtain ⟨url, rfl⟩ := runs_aptKey_iff.mp runs
    simp at member

theorem addRepository_preceded (r : PackageRequest) :
    Preceded (Step.Runs "apt-add-repository") (Step.Installs "software-properties-common") (steps r) := by
  rw [preceded_steps (by simp) (by simp) (by simp), setup, preceded_append, preceded_append]
  refine ⟨⟨preceded_of_free ?keys, .inr ?own⟩, .inr (preceded_of_free ?repositories)⟩
  case own =>
    exact preceded_ppaSteps _ _ (by simp) (by simp) ⟨_, rfl, by decide⟩
  case keys =>
    intro s member runs
    obtain ⟨ppa, rfl⟩ := runs_addRepository_iff.mp runs
    simp [mem_keySteps] at member
  case repositories =>
    intro s member runs
    obtain ⟨ppa, rfl⟩ := runs_addRepository_iff.mp runs
    simp at member

theorem wget_preceded_iff {r : PackageRequest} :
    Preceded (Step.Runs "wget") (Step.Installs "wget") (steps r) ↔
      r.aptKeys ≠ [] ∨ ∀ repository ∈ r.aptRepositories, isUrl repository = false := by
  have keys : Preceded (Step.Runs "wget") (Step.Installs "wget") (keySteps r.aptKeys) :=
    preceded_keySteps _ (by simp) (by simp) ⟨_, rfl, by decide⟩
  have ppas : Preceded (Step.Runs "wget") (Step.Installs "wget") (ppaSteps r.aptKeys r.aptPpas) := by
    refine preceded_of_free fun s member runs => ?_
    rcases runs_wget_iff.mp runs with ⟨url, rfl⟩ | ⟨repository, rfl, -⟩
    · simp [mem_ppaSteps] at member
    · simp [mem_ppaSteps] at member
  -- No repository brings wget for the next one.
  have repositories : Preceded (Step.Runs "wget") (Step.Installs "wget") (r.aptRepositories.map .addRepository) ↔
      ∀ repository ∈ r.aptRepositories, isUrl repository = false := by
    rw [preceded_iff_free fun s member installs => ?_]
    · simp
    · obtain ⟨packages, rfl, -⟩ := installs
      simp at member
  rw [preceded_steps (by simp) (by simp) (by simp), setup, preceded_append, preceded_append,
    exists_installs_wget_iff, repositories]
  exact and_iff_right ⟨keys, .inr ppas⟩

-- Keys are added with programs that are installed just before, and so are PPAs. A file of source lines is
-- fetched with wget, which is there if there are keys, and is not installed otherwise.
theorem tools_at_hand (r : PackageRequest) :
    commands r = (steps r).map (fun s => " | ".intercalate (s.calls.map Call.text)) ∧
      Preceded (Step.Runs "apt-key") (fun s => s.Installs "wget" ∧ s.Installs "gnupg") (steps r) ∧
      Preceded (Step.Runs "apt-add-repository") (Step.Installs "software-properties-common") (steps r) ∧
      (Preceded (Step.Runs "wget") (Step.Installs "wget") (steps r) ↔
        r.aptKeys ≠ [] ∨ ∀ repository ∈ r.aptRepositories, isUrl repository = false) := by
  refine ⟨?texts, aptKey_preceded r, addRepository_preceded r, wget_preceded_iff⟩
  case texts => exact List.map_congr_left fun s _ => s.text_eq_calls

-- A file of source lines that is asked for without keys is fetched with a program that nothing has installed.
theorem tools_missing :
    let r : PackageRequest := { aptRepositories := ["https://example.com/extra.list"] }
    commands r = ["wget -qO - https://example.com/extra.list >> /etc/apt/sources.list.d/stagefile.list",
      "rm -rf /var/lib/apt/lists/*"] ∧ ¬ Preceded (Step.Runs "wget") (Step.Installs "wget") (steps r) := by
  intro r
  have made : steps r = [.addRepository "https://example.com/extra.list", .cleanUp] := by cbv
  refine ⟨by rw [commands, made]; decide, ?_⟩
  rw [made, preceded_cons]
  exact fun ordered => ordered.1 (runs_wget_iff.mpr (.inr ⟨_, rfl, by decide⟩))

end

end Apt

end ContainerRecipe
