import ContainerRecipe.Instruction.Run
import Mathlib.Data.List.Chain
import Mathlib.Data.List.Pairwise

namespace ContainerRecipe.Instruction

-- What it takes for two instructions to go together, kind by kind.
inductive Joined : Instruction → Instruction → Prop where
  | shells {a b : Shell} (app : a.app = b.app) (fromRoot : a.fromRoot = b.fromRoot) :
      Joined (.shell a) (.shell b)
  | copies {a b : Copy} (app : a.app = b.app) (source : a.source = b.source) (owner : a.owner = b.owner)
      (exclude : a.exclude = b.exclude) : Joined (.copy a) (.copy b)
  | environments {a b : Environment} (app : a.app = b.app) (exported : a.exported = b.exported) :
      Joined (.environment a) (.environment b)
  | labels {a b : Labels} (app : a.app = b.app) : Joined (.labels a) (.labels b)
  | comments {a b : Comment} (app : a.app = b.app) (reformat : a.reformat = b.reformat) :
      Joined (.comment a) (.comment b)
  | arguments {a b : Arguments} : Joined (.arguments a) (.arguments b)
  | runscripts {a b : Runscript} (app : a.app = b.app) (exec : a.exec = b.exec) :
      Joined (.runscript a) (.runscript b)

theorem joined_of_joins (joins : joins p q = true) : Joined p q := by
  unfold Instruction.joins at joins
  split at joins
  · simp only [Bool.and_eq_true, decide_eq_true_eq] at joins
    exact .shells joins.1 joins.2
  · simp only [Bool.and_eq_true, decide_eq_true_eq] at joins
    exact .copies joins.1.1.1 joins.1.1.2 joins.1.2 joins.2
  · simp only [Bool.and_eq_true, decide_eq_true_eq] at joins
    exact .environments joins.1 joins.2
  · exact .labels (of_decide_eq_true joins)
  · simp only [Bool.and_eq_true, decide_eq_true_eq] at joins
    exact .comments joins.1 joins.2
  · exact .arguments
  · simp only [Bool.and_eq_true, decide_eq_true_eq] at joins
    exact .runscripts joins.1 joins.2
  · cases joins

theorem joins_iff : joins p q = true ↔ Joined p q := by
  constructor
  · exact joined_of_joins
  · intro joined
    cases joined <;> simp [joins, *]

theorem Joined.symm (joined : Joined p q) : Joined q p := by
  cases joined with
  | shells app fromRoot => exact .shells app.symm fromRoot.symm
  | copies app source owner exclude => exact .copies app.symm source.symm owner.symm exclude.symm
  | environments app exported => exact .environments app.symm exported.symm
  | labels app => exact .labels app.symm
  | comments app reformat => exact .comments app.symm reformat.symm
  | arguments => exact .arguments
  | runscripts app exec => exact .runscripts app.symm exec.symm

theorem Joined.trans (first : Joined p q) (second : Joined q r) : Joined p r := by
  cases first with
  | shells app fromRoot =>
    cases second with
    | shells app' fromRoot' => exact .shells (app.trans app') (fromRoot.trans fromRoot')
  | copies app source owner exclude =>
    cases second with
    | copies app' source' owner' exclude' =>
      exact .copies (app.trans app') (source.trans source') (owner.trans owner') (exclude.trans exclude')
  | environments app exported =>
    cases second with
    | environments app' exported' => exact .environments (app.trans app') (exported.trans exported')
  | labels app =>
    cases second with
    | labels app' => exact .labels (app.trans app')
  | comments app reformat =>
    cases second with
    | comments app' reformat' => exact .comments (app.trans app') (reformat.trans reformat')
  | arguments =>
    cases second with
    | arguments => exact .arguments
  | runscripts app exec =>
    cases second with
    | runscripts app' exec' => exact .runscripts (app.trans app') (exec.trans exec')

-- A run: a head, and members that each go with it.
def IsRun (run : List Instruction) : Prop :=
  ∃ head members, run = head :: members ∧ ∀ p ∈ members, joins head p = true

theorem IsRun.ne_nil (run : IsRun ps) : ps ≠ [] := by
  obtain ⟨head, members, rfl, -⟩ := run
  exact List.cons_ne_nil _ _

-- Members are compared with the head only, but go together among themselves.
theorem IsRun.pairwise (run : IsRun ps) : ps.Pairwise fun p q => joins p q = true ∧ joins q p = true := by
  obtain ⟨head, members, rfl, joined⟩ := run
  simp only [joins_iff] at joined ⊢
  refine List.pairwise_cons.mpr ⟨fun p member => ⟨joined p member, (joined p member).symm⟩, ?_⟩
  refine List.pairwise_of_forall_mem_list fun p first q second => ?_
  exact ⟨(joined p first).symm.trans (joined q second), (joined q second).symm.trans (joined p first)⟩

-- The head of a run does not go with the head of the run before it.
def Apart (earlier later : List Instruction) : Prop :=
  ∀ p ∈ earlier.head?, ∀ q ∈ later.head?, joins p q = false

theorem runsFrom_flatten (head : Instruction) (members items : List Instruction) :
    (runsFrom head members items).flatten = head :: (members ++ items) := by
  induction items generalizing head members with
  | nil => simp [runsFrom]
  | cons p rest ih =>
    unfold runsFrom
    split
    · rw [ih, List.append_assoc, List.singleton_append]
    · rw [List.flatten_cons, ih, List.nil_append, List.cons_append]

theorem runsFrom_isRun {members : List Instruction} (joined : ∀ p ∈ members, joins head p = true)
    (items : List Instruction) : ∀ run ∈ runsFrom head members items, IsRun run := by
  induction items generalizing head members with
  | nil =>
    intro run member
    rw [runsFrom, List.mem_singleton] at member
    exact ⟨head, members, member, joined⟩
  | cons p rest ih =>
    unfold runsFrom
    split
    · rename_i goes
      refine ih fun q member => ?_
      rcases List.mem_append.mp member with old | new
      · exact joined q old
      · rw [List.mem_singleton.mp new]
        exact goes
    · intro run member
      rcases List.mem_cons.mp member with rfl | later
      · exact ⟨head, members, rfl, joined⟩
      · exact ih (by simp) run later

theorem runsFrom_starts (head : Instruction) (members items : List Instruction) :
    ∃ more later, runsFrom head members items = (head :: more) :: later := by
  induction items generalizing members with
  | nil => exact ⟨members, [], rfl⟩
  | cons p rest ih =>
    unfold runsFrom
    split
    · exact ih _
    · exact ⟨members, _, rfl⟩

theorem runsFrom_apart (head : Instruction) (members items : List Instruction) :
    (runsFrom head members items).IsChain Apart := by
  induction items generalizing head members with
  | nil => exact List.isChain_singleton _
  | cons p rest ih =>
    unfold runsFrom
    split
    · exact ih head _
    · rename_i ends
      obtain ⟨more, later, starts⟩ := runsFrom_starts p [] rest
      have next := ih p []
      rw [starts] at next ⊢
      refine List.isChain_cons_cons.mpr ⟨?_, next⟩
      intro a first b second
      obtain rfl : head = a := by simpa using first
      obtain rfl : p = b := by simpa using second
      simpa using ends

theorem runs_flatten (items : List Instruction) : (runs items).flatten = items := by
  cases items with
  | nil => rfl
  | cons p rest => exact runsFrom_flatten p [] rest

theorem mem_runs {items : List Instruction} : p ∈ items ↔ ∃ run ∈ runs items, p ∈ run := by
  rw [← List.mem_flatten, runs_flatten]

theorem runs_isRun (items : List Instruction) : ∀ run ∈ runs items, IsRun run := by
  cases items with
  | nil => simp [runs]
  | cons p rest => exact runsFrom_isRun (by simp) rest

theorem runs_nonempty (items : List Instruction) : ∀ run ∈ runs items, run ≠ [] :=
  fun run member => (runs_isRun items run member).ne_nil

theorem runs_apart (items : List Instruction) : (runs items).IsChain Apart := by
  cases items with
  | nil => exact List.isChain_nil
  | cons p rest => exact runsFrom_apart p [] rest

end ContainerRecipe.Instruction
