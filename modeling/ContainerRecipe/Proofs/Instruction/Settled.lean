import ContainerRecipe.Proofs.Instruction.Pieces

namespace ContainerRecipe

-- How neighbours are related in a list is told by how their partners are in another one.
theorem isChain_iff_of_forall₂ {α β : Type} {A R : α → α → Prop} {S : β → β → Prop} {M : α → β → Prop}
    {as : List α} {bs : List β} (related : List.Forall₂ M as bs) (chain : as.IsChain A)
    (each : ∀ {a b c d}, M a c → M b d → A a b → (R a b ↔ S c d)) : as.IsChain R ↔ bs.IsChain S := by
  induction related with
  | nil => exact iff_of_true .nil .nil
  | cons here rest ih =>
    cases rest with
    | nil => exact iff_of_true (.singleton _) (.singleton _)
    | cons next more =>
      obtain ⟨first, others⟩ := List.isChain_cons_cons.mp chain
      rw [List.isChain_cons_cons, List.isChain_cons_cons, each here next first, ih others]

theorem eraseDups_of_nodup {α : Type} [BEq α] [LawfulBEq α] {as : List α} (once : as.Nodup) :
    as.eraseDups = as := by
  induction as with
  | nil => rfl
  | cons a rest ih =>
    obtain ⟨new, others⟩ := List.nodup_cons.mp once
    have kept : rest.filter (fun b => !b == a) = rest := by
      refine List.filter_eq_self.mpr fun b member => ?_
      have different : b ≠ a := fun equal => new (equal ▸ member)
      simpa using different
    rw [List.eraseDups_cons, kept, ih others]

namespace Instruction

-- No two neighbours go together.
def Settled (items : List Instruction) : Prop := items.IsChain fun p q => joins p q = false

section

theorem length_runsFrom_le (head : Instruction) (members items : List Instruction) :
    (runsFrom head members items).length ≤ items.length + 1 := by
  induction items generalizing head members with
  | nil => exact Nat.le_refl _
  | cons p rest ih =>
    unfold runsFrom
    split
    · exact Nat.le_succ_of_le (ih head _)
    · exact Nat.succ_le_succ (ih p [])

-- There are as many runs as instructions only if each is a run by itself.
theorem settled_of_length {head : Instruction} {members items : List Instruction}
    (full : (runsFrom head members items).length = items.length + 1) : Settled (head :: items) := by
  induction items generalizing head members with
  | nil => exact .singleton _
  | cons p rest ih =>
    unfold runsFrom at full
    split at full
    · have fewer := length_runsFrom_le head (members ++ [p]) rest
      rw [full, List.length_cons] at fewer
      omega
    · rename_i ends
      have others : (runsFrom p [] rest).length = rest.length + 1 := by simpa using full
      exact List.isChain_cons_cons.mpr ⟨by simpa using ends, ih others⟩

theorem runsFrom_of_settled {head : Instruction} {items : List Instruction}
    (settled : Settled (head :: items)) : runsFrom head [] items = (head :: items).map ([·]) := by
  induction items generalizing head with
  | nil => rfl
  | cons p rest ih =>
    obtain ⟨ends, others⟩ := List.isChain_cons_cons.mp settled
    rw [runsFrom, ends, ih others]
    rfl

theorem mapM_mergeRun_alone (items : List Instruction) :
    (items.map ([·])).mapM mergeRun = (pure items : Outcome MergeError (List Instruction)) := by
  induction items with
  | nil => rfl
  | cons p rest ih => rw [List.map_cons, List.mapM_cons, mergeRun, pure_bind, ih, pure_bind]

theorem mergeRuns_eq_self_iff (items : List Instruction) : mergeRuns items = pure items ↔ Settled items := by
  cases items with
  | nil => exact iff_of_true rfl .nil
  | cons p rest =>
    constructor
    · intro same
      obtain ⟨outputs, made, merged⟩ := mergeRuns_merged (p :: rest)
      have outputs_eq : outputs = p :: rest :=
        Except.ok.inj (congrArg Outcome.result (made.symm.trans same))
      have full := merged.length_eq
      rw [outputs_eq] at full
      exact settled_of_length full
    · intro settled
      rw [mergeRuns, runs, runsFrom_of_settled settled, mapM_mergeRun_alone]

end

section

-- The exclude patterns that a run of copies is left with.
def patternsLeft (run : List Instruction) (head : Copy) : List String :=
  if run.length = 1 then head.exclude else head.exclude.eraseDups

-- Runs of copies that differ at most in repeats among their exclude patterns, and only as long as they
-- are not merged.
def Reunited (earlier later : List Instruction) : Prop :=
  ∃ a b, earlier.head? = some (.copy a) ∧ later.head? = some (.copy b) ∧ a.app = b.app ∧
    a.source = b.source ∧ a.owner = b.owner ∧ patternsLeft earlier a = patternsLeft later b

theorem exists_head_map {β : Type} {bs : List β} (wrap : β → Instruction) (several : 1 < bs.length) :
    ∃ b ∈ bs, (bs.map wrap).head? = some (wrap b) := by
  obtain ⟨b, rest, rfl⟩ := List.exists_cons_of_length_pos (Nat.lt_trans Nat.zero_lt_one several)
  exact ⟨b, List.mem_cons_self, rfl⟩

-- What a run is merged to goes with others as the head of the run, unless it is a copy.
theorem Merged.head_joined (merged : Merged run p) (other : p.kind ≠ "copy") (joined : Joined p q) :
    ∃ h, run.head? = some h ∧ Joined h q := by
  cases merged with
  | alone => exact ⟨p, rfl, joined⟩
  | shells several options =>
    obtain ⟨b, member, starts⟩ := exists_head_map .shell several
    obtain ⟨app, fromRoot⟩ := options b member
    exact ⟨_, starts, (Joined.shells app fromRoot).symm.trans joined⟩
  | copies => exact absurd rfl other
  | environments several options =>
    obtain ⟨b, member, starts⟩ := exists_head_map .environment several
    obtain ⟨app, exported⟩ := options b member
    exact ⟨_, starts, (Joined.environments app exported).symm.trans joined⟩
  | labels several options =>
    obtain ⟨b, member, starts⟩ := exists_head_map .labels several
    exact ⟨_, starts, (Joined.labels (options b member)).symm.trans joined⟩
  | comments several options =>
    obtain ⟨b, member, starts⟩ := exists_head_map .comment several
    obtain ⟨app, reformat⟩ := options b member
    exact ⟨_, starts, (Joined.comments app reformat).symm.trans joined⟩
  | arguments several =>
    obtain ⟨b, member, starts⟩ := exists_head_map .arguments several
    exact ⟨_, starts, Joined.arguments.symm.trans joined⟩
  | runscripts several options =>
    obtain ⟨b, member, starts⟩ := exists_head_map .runscript several
    obtain ⟨app, exec⟩ := options b member
    exact ⟨_, starts, (Joined.runscripts app exec).symm.trans joined⟩

-- A merged copy has the options of the head of its run, and the patterns that the run is left with.
theorem Merged.head_copy (merged : Merged run (.copy c)) :
    ∃ a, run.head? = some (.copy a) ∧ c.app = a.app ∧ c.source = a.source ∧ c.owner = a.owner ∧
      c.exclude = patternsLeft run a := by
  cases merged with
  | alone => exact ⟨c, rfl, rfl, rfl, rfl, rfl⟩
  | @copies cs _ several options =>
    obtain ⟨a, member, starts⟩ := exists_head_map .copy several
    obtain ⟨app, source, owner, exclude⟩ := options a member
    have longer : (cs.map Instruction.copy).length ≠ 1 := by
      rw [List.length_map]
      exact Nat.ne_of_gt several
    exact ⟨a, starts, app, source, owner, exclude.trans (if_neg longer).symm⟩

theorem Merged.copy_of_head (merged : Merged run p) (starts : run.head? = some (.copy a)) :
    ∃ c, p = .copy c := by
  cases merged with
  | alone => exact ⟨a, Option.some.inj starts⟩
  | copies => exact ⟨_, rfl⟩
  | shells | environments | labels | comments | arguments | runscripts =>
    rw [List.head?_map, Option.map_eq_some_iff] at starts
    obtain ⟨b, -, never⟩ := starts
    cases never

variable {earlier later : List Instruction} {p q : Instruction}

theorem joins_iff_reunited (first : Merged earlier p) (second : Merged later q)
    (apart : Apart earlier later) : joins p q = true ↔ Reunited earlier later := by
  rw [joins_iff]
  constructor
  · intro joined
    by_cases copy : p.kind = "copy"
    · cases joined with
      | copies app source owner exclude =>
        obtain ⟨a, starts, app', source', owner', left⟩ := first.head_copy
        obtain ⟨b, begins, app'', source'', owner'', right⟩ := second.head_copy
        exact ⟨a, b, starts, begins, app' ▸ app'' ▸ app, source' ▸ source'' ▸ source,
          owner' ▸ owner'' ▸ owner, left ▸ right ▸ exclude⟩
      | _ => simp [kind] at copy
    · have kinds : p.kind = q.kind := by cases joined <;> rfl
      obtain ⟨h, starts, half⟩ := first.head_joined copy joined
      obtain ⟨k, begins, whole⟩ := second.head_joined (kinds ▸ copy) half.symm
      have together : joins h k = true := joins_iff.mpr whole.symm
      rw [apart h starts k begins] at together
      cases together
  · rintro ⟨a, b, starts, begins, app, source, owner, patterns⟩
    obtain ⟨c, rfl⟩ := first.copy_of_head starts
    obtain ⟨d, rfl⟩ := second.copy_of_head begins
    obtain ⟨a', starts', app', source', owner', left⟩ := first.head_copy
    obtain ⟨b', begins', app'', source'', owner'', right⟩ := second.head_copy
    cases starts.symm.trans starts'
    cases begins.symm.trans begins'
    exact .copies (by rw [app', app'', app]) (by rw [source', source'', source])
      (by rw [owner', owner'', owner]) (by rw [left, right, patterns])

theorem settled_iff {items outputs : List Instruction} (merged : List.Forall₂ Merged (runs items) outputs) :
    Settled outputs ↔ (runs items).IsChain fun earlier later => ¬ Reunited earlier later := by
  refine (isChain_iff_of_forall₂ merged (runs_apart items) fun first second apart => ?_).symm
  rw [← joins_iff_reunited first second apart, Bool.not_eq_true]

end

section

variable {items outputs : List Instruction}

-- The runs of copies that hold several of them have no repeats among their patterns.
def Tidy (items : List Instruction) : Prop :=
  ∀ run ∈ runs items, ∀ c, run.head? = some (.copy c) → patternsLeft run c = c.exclude

theorem tidy_of_nodup (once : ∀ c, .copy c ∈ items → c.exclude.Nodup) : Tidy items := by
  intro run member c starts
  have inside : .copy c ∈ items := mem_runs.mpr ⟨run, member, List.mem_of_head? starts⟩
  unfold patternsLeft
  split
  · rfl
  · exact eraseDups_of_nodup (once c inside)

theorem settled_of_tidy (merged : List.Forall₂ Merged (runs items) outputs) (tidy : Tidy items) :
    Settled outputs := by
  rw [settled_iff merged]
  refine (runs_apart items).imp_of_mem_imp fun earlier later first second apart => ?_
  rintro ⟨a, b, starts, begins, app, source, owner, patterns⟩
  rw [tidy earlier first a starts, tidy later second b begins] at patterns
  have together : joins (.copy a) (.copy b) = true := joins_iff.mpr (.copies app source owner patterns)
  rw [apart _ starts _ begins] at together
  cases together

-- Where copies go together that come from runs that did not, repeats have been dropped in one of them.
theorem erased_of_joins {earlier later : List Instruction} {c : Copy} {q : Instruction}
    (first : Merged earlier (.copy c)) (second : Merged later q) (apart : Apart earlier later)
    (together : joins (.copy c) q = true) : c.exclude.eraseDups = c.exclude := by
  cases joins_iff.mp together with
  | copies app source owner exclude =>
    obtain ⟨a, starts, app', source', owner', left⟩ := first.head_copy
    obtain ⟨b, begins, app'', source'', owner'', right⟩ := second.head_copy
    unfold patternsLeft at left right
    split at left
    · split at right
      · -- Two copies that stand alone go together as they did before.
        have alike : joins (.copy a) (.copy b) = true := joins_iff.mpr
          (.copies (app' ▸ app'' ▸ app) (source' ▸ source'' ▸ source) (owner' ▸ owner'' ▸ owner)
            (left ▸ right ▸ exclude))
        rw [apart _ starts _ begins] at alike
        cases alike
      · rw [exclude, right, eraseDups_eraseDups]
    · rw [left, eraseDups_eraseDups]

theorem tidy_outputs (merged : List.Forall₂ Merged (runs items) outputs) : Tidy outputs := by
  -- What neighbours that go together have in common, all along the list.
  have neighbours : outputs.IsChain fun p q =>
      joins p q = true → ∀ c, p = .copy c → c.exclude.eraseDups = c.exclude := by
    refine (isChain_iff_of_forall₂ merged (runs_apart items) fun first second apart => ?_).mp
      (runs_apart items)
    refine iff_of_true apart fun together c copy => ?_
    subst copy
    exact erased_of_joins first second apart together
  intro run member c starts
  obtain ⟨rest, rfl⟩ := List.head?_eq_some_iff.mp starts
  cases rest with
  | nil => rfl
  | cons q more =>
    have inside : .copy c :: q :: more <:+: outputs := by
      have infixed := List.infix_of_mem_flatten member
      rwa [runs_flatten] at infixed
    have together := (List.pairwise_cons.mp (runs_isRun outputs _ member).pairwise).1 q List.mem_cons_self
    have chained := List.IsChain.infix neighbours inside
    have first := (List.isChain_cons_cons.mp chained).1
    exact (if_neg (by simp)).trans (first together.1 c rfl)

end

-- Merging twice is enough, and when merging once is.
theorem merging_settles (items : List Instruction) :
    ∃ once twice, mergeRuns items = pure once ∧ mergeRuns once = pure twice ∧
      mergeRuns twice = pure twice ∧ Settled twice ∧ (twice = once ↔ Settled once) ∧
      (twice = once ↔ (runs items).IsChain fun earlier later => ¬ Reunited earlier later) ∧
      ((∀ c, .copy c ∈ items → c.exclude.Nodup) → twice = once) := by
  obtain ⟨once, made, merged⟩ := mergeRuns_merged items
  obtain ⟨twice, madeAgain, mergedAgain⟩ := mergeRuns_merged once
  have settled : Settled twice := settled_of_tidy mergedAgain (tidy_outputs merged)
  have same : twice = once ↔ Settled once := by
    rw [← mergeRuns_eq_self_iff, madeAgain]
    exact ⟨fun equal => equal ▸ rfl, fun equal => Except.ok.inj (congrArg Outcome.result equal)⟩
  refine ⟨once, twice, made, madeAgain, (mergeRuns_eq_self_iff twice).mpr settled, settled, same, ?_, ?_⟩
  · rw [same, settled_iff merged]
  · intro tidy
    exact same.mpr (settled_of_tidy merged (tidy_of_nodup tidy))

-- Copies without repeats among their patterns, of which two become one.
theorem merging_settles_tidy :
    let copy (path pattern : String) : Instruction :=
      .copy { entries := [⟨[path], path⟩], exclude := [pattern] }
    let items := [copy "/opt/a" "*.o", copy "/opt/b" "*.o", copy "/opt/c" "*.a"]
    ∃ once, mergeRuns items = pure once ∧ once.length = 2 ∧ mergeRuns once = pure once := by
  intro copy items
  obtain ⟨once, twice, made, madeAgain, -, -, -, -, enough⟩ := merging_settles items
  have tidy : ∀ c, .copy c ∈ items → c.exclude.Nodup := by
    intro c member
    simp only [items, copy, List.mem_cons, Instruction.copy.injEq, List.not_mem_nil, or_false] at member
    rcases member with rfl | rfl | rfl <;> exact List.nodup_singleton _
  have shape : (mergeRuns items).result.toOption.map List.length = some 2 := by decide +kernel
  rw [made] at shape
  refine ⟨once, made, Option.some.inj shape, ?_⟩
  rw [madeAgain, enough tidy]

-- Two copies with a pattern that is repeated, and one without the repeat.
theorem merging_unsettled :
    let copy (path : String) (exclude : List String) : Instruction :=
      .copy { entries := [⟨[path], path⟩], exclude }
    let items := [copy "/opt/a" ["*.o", "*.o"], copy "/opt/b" ["*.o", "*.o"], copy "/opt/c" ["*.o"]]
    let pair : Instruction :=
      .copy { entries := [⟨["/opt/a"], "/opt/a"⟩, ⟨["/opt/b"], "/opt/b"⟩], exclude := ["*.o"] }
    let once := [pair, copy "/opt/c" ["*.o"]]
    (mergeRuns items).result = .ok once ∧ joins pair (copy "/opt/c" ["*.o"]) = true ∧
      (mergeRuns once).result ≠ .ok once := by
  decide +kernel

end Instruction

end ContainerRecipe
