import ContainerRecipe.Proofs.Instruction.Runs
import ContainerRecipe.Proofs.Outcome

namespace ContainerRecipe

-- Only the first of equal members stays, so a list that is repeated adds nothing.
theorem eraseDups_flatMap_of_same {α β : Type} [BEq β] [LawfulBEq β] {f : α → List β} {a : α} {bs : List α}
    (same : ∀ b ∈ bs, f a = f b) : ((a :: bs).flatMap f).eraseDups = (f a).eraseDups := by
  have nothing : (bs.flatMap f).removeAll (f a) = [] := by
    refine List.filter_eq_nil_iff.mpr fun x found => ?_
    obtain ⟨b, member, inside⟩ := List.mem_flatMap.mp found
    simpa [same b member] using inside
  rw [List.flatMap_cons, List.eraseDups_append, nothing, List.eraseDups_nil, List.append_nil]

theorem head?_eraseDups {α : Type} [BEq α] [LawfulBEq α] (as : List α) : as.eraseDups.head? = as.head? := by
  cases as with
  | nil => rfl
  | cons a rest => rw [List.eraseDups_cons, List.head?_cons, List.head?_cons]

theorem any_of_same {α : Type} {f : α → Bool} {a : α} {bs : List α} (same : ∀ b ∈ bs, f a = f b) :
    (a :: bs).any f = f a := by
  cases told : f a with
  | true => rw [List.any_cons, told, Bool.true_or]
  | false =>
    rw [List.any_cons, told, Bool.false_or, List.any_eq_false]
    intro b member
    rw [← same b member, told]
    exact Bool.false_ne_true

theorem exists_related {R : α → β → Prop} {as : List α} {bs : List β} (related : List.Forall₂ R as bs) :
    ∀ a ∈ as, ∃ b ∈ bs, R a b := by
  induction related with
  | nil => intro a member; cases member
  | cons here _ ih =>
    intro a member
    rcases List.mem_cons.mp member with rfl | later
    · exact ⟨_, List.mem_cons_self, here⟩
    · obtain ⟨b, found, holds⟩ := ih a later
      exact ⟨b, List.mem_cons_of_mem _ found, holds⟩

theorem sift_of_picked {pick : α → Except Warning β} {wrap : β → α} {bs : List β}
    (picked : ∀ b ∈ bs, pick (wrap b) = .ok b) : sift pick (bs.map wrap) = pure bs := by
  induction bs with
  | nil => rfl
  | cons b rest ih =>
    obtain ⟨first, others⟩ := List.forall_mem_cons.mp picked
    have tail := ih others
    simp only [sift, pure, Logged.mk.injEq] at tail ⊢
    simp only [List.map_cons, List.filterMap_cons, first, Except.toOption]
    exact ⟨congrArg (b :: ·) tail.1, tail.2⟩

namespace Instruction

-- A run and what it becomes, kind by kind.
inductive Merged : List Instruction → Instruction → Prop where
  | alone (p : Instruction) : Merged [p] p
  | shells {ss : List Shell} {s : Shell} (several : 1 < ss.length)
      (options : ∀ x ∈ ss, s.app = x.app ∧ s.fromRoot = x.fromRoot)
      (commands : s.commands = ss.flatMap (·.commands)) : Merged (ss.map .shell) (.shell s)
  | copies {cs : List Copy} {c : Copy} (several : 1 < cs.length)
      (options : ∀ x ∈ cs, c.app = x.app ∧ c.source = x.source ∧ c.owner = x.owner ∧
        c.exclude = x.exclude.eraseDups)
      (entries : c.entries = (cs.flatMap (·.entries)).eraseDups) : Merged (cs.map .copy) (.copy c)
  | environments {es : List Environment} {e : Environment} (several : 1 < es.length)
      (options : ∀ x ∈ es, e.app = x.app ∧ e.exported = x.exported)
      (bindings : e.bindings = .unionAll (es.map (·.bindings))) :
      Merged (es.map .environment) (.environment e)
  | labels {ls : List Labels} {l : Labels} (several : 1 < ls.length) (options : ∀ x ∈ ls, l.app = x.app)
      (bindings : l.bindings = .unionAll (ls.map (·.bindings))) : Merged (ls.map .labels) (.labels l)
  | comments {cs : List Comment} {c : Comment} (several : 1 < cs.length)
      (options : ∀ x ∈ cs, c.app = x.app ∧ c.reformat = x.reformat)
      (text : c.text = "\n".intercalate (cs.map (·.text)).eraseDups) : Merged (cs.map .comment) (.comment c)
  | arguments {as : List Arguments} {a : Arguments} (several : 1 < as.length)
      (bindings : a.bindings = .unionAll (as.map (·.bindings))) : Merged (as.map .arguments) (.arguments a)
  | runscripts {rs : List Runscript} {r : Runscript} (several : 1 < rs.length)
      (options : ∀ x ∈ rs, r.app = x.app ∧ r.exec = x.exec)
      (commands : r.commands = (rs.flatMap (·.commands)).eraseDups) :
      Merged (rs.map .runscript) (.runscript r)

-- How lists that start with an instruction are merged: what is picked from them, and what is built of it.
def MergesBy (first : Instruction) (pick : Instruction → Except Warning β)
    (build : List β → Option String → Instruction) : Prop :=
  ∀ rest app, merge (first :: rest) app = .ofLogged ((build · app) <$> sift pick (first :: rest))

theorem shell_mergesBy (first : Shell) : MergesBy (.shell first) pickShell fun all app =>
    .shell { first with commands := all.flatMap (·.commands), app } :=
  fun _ _ => rfl

theorem copy_mergesBy (first : Copy) : MergesBy (.copy first) (pickCopy first) fun all app =>
    .copy { first with
      entries := (all.flatMap (·.entries)).eraseDups
      exclude := (all.flatMap (·.exclude)).eraseDups
      app } :=
  fun _ _ => rfl

theorem environment_mergesBy (first : Environment) :
    MergesBy (.environment first) pickEnvironment fun all app => .environment
      { bindings := .unionAll (all.map (·.bindings)), exported := all.any (·.exported), app } :=
  fun _ _ => rfl

theorem labels_mergesBy (first : Labels) : MergesBy (.labels first) pickLabels fun all app =>
    .labels { bindings := .unionAll (all.map (·.bindings)), app } :=
  fun _ _ => rfl

theorem comment_mergesBy (first : Comment) : MergesBy (.comment first) pickComment fun all app =>
    .comment { text := "\n".intercalate (all.map (·.text)).eraseDups, reformat := false, app } :=
  fun _ _ => rfl

theorem arguments_mergesBy (first : Arguments) : MergesBy (.arguments first) pickArguments fun all _ =>
    .arguments ⟨.unionAll (all.map (·.bindings))⟩ :=
  fun _ _ => rfl

theorem runscript_mergesBy (first : Runscript) : MergesBy (.runscript first) pickRunscript fun all app =>
    .runscript { first with commands := (all.flatMap (·.commands)).eraseDups, app } :=
  fun _ _ => rfl

theorem MergesBy.merge_eq (merges : MergesBy first pick build) (rest : List Instruction)
    (app : Option String) : merge (first :: rest) app =
      ⟨.ok (build (sift pick (first :: rest)).value app), (sift pick (first :: rest)).warnings⟩ := by
  rw [merges, Outcome.ofLogged, Logged.warnings_map]
  rfl

theorem MergesBy.ok (merges : MergesBy first pick build) (rest : List Instruction) (app : Option String) :
    ∃ merged, (merge (first :: rest) app).result = .ok merged :=
  ⟨_, congrArg Outcome.result (merges.merge_eq rest app)⟩

-- Instructions of one kind are all picked, and built from together.
theorem MergesBy.merge_map {wrap : β → Instruction} {b : β} {bs : List β}
    (merges : MergesBy (wrap b) pick build) (picked : ∀ x ∈ b :: bs, pick (wrap x) = .ok x)
    (app : Option String) : merge ((b :: bs).map wrap) app = pure (build (b :: bs) app) := by
  rw [List.map_cons, merges.merge_eq, ← List.map_cons, sift_of_picked picked]
  rfl

section

variable (app : Option String)

theorem merge_shells (first : Shell) (rest : List Shell) : merge ((first :: rest).map .shell) app =
    pure (.shell { first with commands := (first :: rest).flatMap (·.commands), app }) :=
  (shell_mergesBy first).merge_map (fun _ _ => rfl) app

theorem merge_copies {first : Copy} {rest : List Copy}
    (same : ∀ c ∈ rest, c.source = first.source ∧ c.owner = first.owner) :
    merge ((first :: rest).map .copy) app = pure (.copy { first with
      entries := ((first :: rest).flatMap (·.entries)).eraseDups
      exclude := ((first :: rest).flatMap (·.exclude)).eraseDups
      app }) := by
  have picked : ∀ c ∈ first :: rest, pickCopy first (.copy c) = .ok c := by
    intro c member
    rcases List.mem_cons.mp member with rfl | later
    · simp [pickCopy]
    · simp [pickCopy, same c later]
  exact (copy_mergesBy first).merge_map picked app

theorem merge_environments (first : Environment) (rest : List Environment) :
    merge ((first :: rest).map .environment) app = pure (.environment
      { bindings := .unionAll ((first :: rest).map (·.bindings))
        exported := (first :: rest).any (·.exported)
        app }) :=
  (environment_mergesBy first).merge_map (fun _ _ => rfl) app

theorem merge_labels (first : Labels) (rest : List Labels) : merge ((first :: rest).map .labels) app =
    pure (.labels { bindings := .unionAll ((first :: rest).map (·.bindings)), app }) :=
  (labels_mergesBy first).merge_map (fun _ _ => rfl) app

theorem merge_comments (first : Comment) (rest : List Comment) : merge ((first :: rest).map .comment) app =
    pure (.comment
      { text := "\n".intercalate ((first :: rest).map (·.text)).eraseDups, reformat := false, app }) :=
  (comment_mergesBy first).merge_map (fun _ _ => rfl) app

theorem merge_arguments (first : Arguments) (rest : List Arguments) :
    merge ((first :: rest).map .arguments) app =
      pure (.arguments ⟨.unionAll ((first :: rest).map (·.bindings))⟩) :=
  (arguments_mergesBy first).merge_map (fun _ _ => rfl) app

theorem merge_runscripts (first : Runscript) (rest : List Runscript) :
    merge ((first :: rest).map .runscript) app =
      pure (.runscript { first with commands := ((first :: rest).flatMap (·.commands)).eraseDups, app }) :=
  (runscript_mergesBy first).merge_map (fun _ _ => rfl) app

end

-- Members that are all of one kind.
theorem exists_map_of_forall {wrap : β → Instruction} {C : β → Prop} {ps : List Instruction}
    (all : ∀ p ∈ ps, ∃ b, p = wrap b ∧ C b) : ∃ bs : List β, ps = bs.map wrap ∧ ∀ b ∈ bs, C b := by
  induction ps with
  | nil => exact ⟨[], rfl, by simp⟩
  | cons p rest ih =>
    obtain ⟨⟨b, kind, holds⟩, tail⟩ := List.forall_mem_cons.mp all
    obtain ⟨bs, kinds, others⟩ := ih tail
    exact ⟨b :: bs, by rw [kind, kinds, List.map_cons], List.forall_mem_cons.mpr ⟨holds, others⟩⟩

-- A comment that others are merged into keeps its formatting.
def formattedAs (first : Instruction) : Instruction → Instruction
  | .comment c =>
    match first with
    | .comment first => .comment { c with reformat := first.reformat }
    | _ => .comment c
  | merged => merged

theorem mergeRun_of_merge (given : members ≠ []) (merged : merge (p :: members) p.app = pure q) :
    mergeRun (p :: members) = pure (formattedAs p q) := by
  obtain ⟨next, rest, rfl⟩ := List.exists_cons_of_ne_nil given
  simp only [mergeRun, List.head?_cons, Option.bind_some, merged, pure_bind]
  cases q <;> cases p <;> rfl

-- A run of one kind becomes what merging builds from its members.
theorem mergeRun_of_kind {wrap : β → Instruction} {Fits : β → Prop} {build : List β → Instruction}
    (kinds : ∀ p ∈ members, ∃ b, p = wrap b ∧ Fits b) (given : members ≠ [])
    (merged : ∀ bs, (∀ b ∈ bs, Fits b) → merge ((a :: bs).map wrap) (wrap a).app = pure (build bs))
    (becomes : ∀ bs, 1 < (a :: bs).length → (∀ b ∈ bs, Fits b) →
      Merged ((a :: bs).map wrap) (formattedAs (wrap a) (build bs))) :
    ∃ p, mergeRun (wrap a :: members) = pure p ∧ Merged (wrap a :: members) p := by
  obtain ⟨bs, rfl, fits⟩ := exists_map_of_forall kinds
  have several : 1 < (a :: bs).length := by
    have counted := List.length_pos_iff.mpr given
    rw [List.length_map] at counted
    rw [List.length_cons]
    omega
  exact ⟨_, mergeRun_of_merge given (merged bs fits), becomes bs several fits⟩

theorem mergeRun_merged {run : List Instruction} (isRun : IsRun run) :
    ∃ p, mergeRun run = pure p ∧ Merged run p := by
  obtain ⟨head, members, rfl, joined⟩ := isRun
  simp only [joins_iff] at joined
  by_cases given : members = []
  · subst given
    exact ⟨head, rfl, .alone head⟩
  -- The head tells the kind of the others and their options.
  cases head with
  | shell a =>
    have kinds : ∀ p ∈ members, ∃ b, p = .shell b ∧ a.app = b.app ∧ a.fromRoot = b.fromRoot := by
      intro p member
      cases joined p member with
      | shells app fromRoot => exact ⟨_, rfl, app, fromRoot⟩
    refine mergeRun_of_kind kinds given (fun bs _ => merge_shells a.app a bs) fun bs several same => ?_
    exact .shells several (List.forall_mem_cons.mpr ⟨⟨rfl, rfl⟩, same⟩) rfl
  | copy a =>
    have kinds : ∀ p ∈ members, ∃ b, p = .copy b ∧ a.app = b.app ∧ a.source = b.source ∧
        a.owner = b.owner ∧ a.exclude = b.exclude := by
      intro p member
      cases joined p member with
      | copies app source owner exclude => exact ⟨_, rfl, app, source, owner, exclude⟩
    refine mergeRun_of_kind kinds given (fun bs same => merge_copies a.app fun b member => ?_)
      fun bs several same => ?_
    · obtain ⟨-, source, owner, -⟩ := same b member
      exact ⟨source.symm, owner.symm⟩
    · have exclude : ((a :: bs).flatMap (·.exclude)).eraseDups = a.exclude.eraseDups :=
        eraseDups_flatMap_of_same fun b member => (same b member).2.2.2
      refine .copies several (List.forall_mem_cons.mpr ⟨⟨rfl, rfl, rfl, exclude⟩, ?_⟩) rfl
      intro b member
      obtain ⟨app, source, owner, patterns⟩ := same b member
      exact ⟨app, source, owner, patterns ▸ exclude⟩
  | environment a =>
    have kinds : ∀ p ∈ members, ∃ b, p = .environment b ∧ a.app = b.app ∧ a.exported = b.exported := by
      intro p member
      cases joined p member with
      | environments app exported => exact ⟨_, rfl, app, exported⟩
    refine mergeRun_of_kind kinds given (fun bs _ => merge_environments a.app a bs)
      fun bs several same => ?_
    have exported : (a :: bs).any (·.exported) = a.exported :=
      any_of_same fun b member => (same b member).2
    rw [exported]
    exact .environments several (List.forall_mem_cons.mpr ⟨⟨rfl, rfl⟩, same⟩) rfl
  | labels a =>
    have kinds : ∀ p ∈ members, ∃ b, p = .labels b ∧ a.app = b.app := by
      intro p member
      cases joined p member with
      | labels app => exact ⟨_, rfl, app⟩
    refine mergeRun_of_kind kinds given (fun bs _ => merge_labels a.app a bs) fun bs several same => ?_
    exact .labels several (List.forall_mem_cons.mpr ⟨rfl, same⟩) rfl
  | comment a =>
    have kinds : ∀ p ∈ members, ∃ b, p = .comment b ∧ a.app = b.app ∧ a.reformat = b.reformat := by
      intro p member
      cases joined p member with
      | comments app reformat => exact ⟨_, rfl, app, reformat⟩
    refine mergeRun_of_kind kinds given (fun bs _ => merge_comments a.app a bs) fun bs several same => ?_
    exact .comments several (List.forall_mem_cons.mpr ⟨⟨rfl, rfl⟩, same⟩) rfl
  | arguments a =>
    have kinds : ∀ p ∈ members, ∃ b, p = .arguments b ∧ True := by
      intro p member
      cases joined p member with
      | arguments => exact ⟨_, rfl, trivial⟩
    exact mergeRun_of_kind kinds given (fun bs _ => merge_arguments none a bs)
      fun bs several _ => .arguments several rfl
  | runscript a =>
    have kinds : ∀ p ∈ members, ∃ b, p = .runscript b ∧ a.app = b.app ∧ a.exec = b.exec := by
      intro p member
      cases joined p member with
      | runscripts app exec => exact ⟨_, rfl, app, exec⟩
    refine mergeRun_of_kind kinds given (fun bs _ => merge_runscripts a.app a bs)
      fun bs several same => ?_
    exact .runscripts several (List.forall_mem_cons.mpr ⟨⟨rfl, rfl⟩, same⟩) rfl
  | baseImage | verbatim | workdir | user | fragment =>
    obtain ⟨p, member⟩ := List.exists_mem_of_ne_nil _ given
    cases joined p member

theorem mergeRuns_merged (items : List Instruction) :
    ∃ outputs, mergeRuns items = pure outputs ∧ List.Forall₂ Merged (runs items) outputs :=
  Outcome.mapM_of_forall fun run member => mergeRun_merged (runs_isRun items run member)

section

variable {P : Instruction → Prop} {items outputs : List Instruction}
  (merged : List.Forall₂ Merged (runs items) outputs)
include merged

-- What an instruction has only if a member of its run has it.
theorem exists_of_merged (each : ∀ run p, Merged run p → P p → ∃ q ∈ run, P q) :
    (∃ p ∈ outputs, P p) → ∃ q ∈ items, P q := by
  rintro ⟨p, member, holds⟩
  have back : List.Forall₂ (fun p run => Merged run p) outputs (runs items) := merged.flip
  obtain ⟨run, among, becomes⟩ := exists_related back p member
  obtain ⟨q, inside, told⟩ := each run p becomes holds
  exact ⟨q, mem_runs.mpr ⟨run, among, inside⟩, told⟩

-- What an instruction has as soon as a member of its run has it.
theorem exists_merged (each : ∀ run p, Merged run p → (∃ q ∈ run, P q) → P p) :
    (∃ q ∈ items, P q) → ∃ p ∈ outputs, P p := by
  rintro ⟨q, member, holds⟩
  obtain ⟨run, among, inside⟩ := mem_runs.mp member
  obtain ⟨p, found, becomes⟩ := exists_related merged run among
  exact ⟨p, found, each run p becomes ⟨q, inside, holds⟩⟩

end

end Instruction

end ContainerRecipe
