import ContainerRecipe.Proofs.Instruction.Merged
import ContainerRecipe.Proofs.Instruction.Unions
import ContainerRecipe.Proofs.Shell.Variables
import ContainerRecipe.Render.HostScript

namespace ContainerRecipe

namespace Variables

-- The default counts for a variable that is not set or empty.
def fill (current : Option String) (default : String) : Option String :=
  if current.getD "" = "" then some default else current

def setDefault (σ : Variables) (entry : String × String) : Variables := fun name =>
  if name = entry.1 then fill (σ name) entry.2 else σ name

def setDefaults (σ : Variables) (entries : List (String × String)) : Variables := entries.foldl setDefault σ

-- A variable that has a value, the empty one not counting.
def Given (σ : Variables) (name : String) : Prop := (σ name).getD "" ≠ ""

-- Of the defaults, a variable sees those for its own name.
theorem setDefaults_apply (σ : Variables) (entries : List (String × String)) (name : String) :
    σ.setDefaults entries name =
      (entries.filterMap fun entry => if name = entry.1 then some entry.2 else none).foldl fill (σ name) := by
  induction entries generalizing σ with
  | nil => rfl
  | cons entry rest ih =>
    have step : σ.setDefaults (entry :: rest) = (σ.setDefault entry).setDefaults rest := rfl
    rw [step, ih, setDefault]
    by_cases same : name = entry.1
    · simp [same]
    · simp [same]

-- The first of some defaults that is not empty.
def firstGiven (defaults : List String) : String := (defaults.find? (· ≠ "")).getD ""

theorem foldl_fill_of_given {current : Option String} (given : current.getD "" ≠ "") (defaults : List String) :
    defaults.foldl fill current = current := by
  induction defaults with
  | nil => rfl
  | cons first rest ih => rw [List.foldl_cons, fill, if_neg given, ih]

theorem foldl_fill_of_missing {current : Option String} (missing : current.getD "" = "")
    {defaults : List String} (several : defaults ≠ []) :
    defaults.foldl fill current = some (firstGiven defaults) := by
  induction defaults generalizing current with
  | nil => exact absurd rfl several
  | cons first rest ih =>
    rw [List.foldl_cons, fill, if_pos missing]
    by_cases empty : first = ""
    · subst empty
      cases rest with
      | nil => rfl
      | cons second more => exact ih rfl (List.cons_ne_nil _ _)
    · have given : (some first).getD "" ≠ "" := empty
      rw [foldl_fill_of_given given]
      simp [firstGiven, empty]

-- The last default alone leaves a variable as all of them do.
theorem foldl_fill_last_iff (current : Option String) (defaults : List String) :
    defaults.getLast?.toList.foldl fill current = defaults.foldl fill current ↔
      current.getD "" ≠ "" ∨ firstGiven defaults = defaults.getLast?.getD "" := by
  by_cases given : current.getD "" = ""
  · cases last : defaults.getLast? with
    | none =>
      obtain rfl := List.getLast?_eq_none_iff.mp last
      simp [firstGiven]
    | some value =>
      have several : defaults ≠ [] := by
        rintro rfl
        cases last
      rw [foldl_fill_of_missing given several]
      simp [fill, given, eq_comm]
  · rw [foldl_fill_of_given given, foldl_fill_of_given given]
    simp [given]

end Variables

-- Bindings have one entry at most for a name.
theorem Bindings.filterMap_entries (b : Bindings) (name : String) :
    (b.entries.filterMap fun entry => if name = entry.1 then some entry.2 else none) =
      (b.get? name).toList := by
  unfold get?
  have once := b.names_nodup
  generalize b.entries = entries at once
  induction entries with
  | nil => rfl
  | cons first rest ih =>
    obtain ⟨key, value⟩ := first
    obtain ⟨absent, others⟩ := List.nodup_cons.mp once
    by_cases same : name = key
    · have nothing : (rest.filterMap fun entry => if name = entry.1 then some entry.2 else none) = [] := by
        refine List.filterMap_eq_nil_iff.mpr fun entry member => if_neg ?_
        intro again
        have named := List.mem_map_of_mem (f := Prod.fst) member
        rw [← again, same] at named
        exact absent named
      rw [List.filterMap_cons, nothing, lookup_pair]
      simp [same]
    · rw [List.filterMap_cons, ih others, lookup_pair]
      simp [same]

namespace Arguments

-- The defaults that some arguments in order have for a name.
def defaults (as : List Arguments) (name : String) : List String := as.filterMap (·.bindings.get? name)

def union (as : List Arguments) : Bindings := .unionAll (as.map (·.bindings))

theorem get?_union (as : List Arguments) (name : String) :
    (union as).get? name = (defaults as name).getLast? :=
  Bindings.get?_unionAll_map Arguments.bindings as name

theorem setDefaults_eq (σ : Variables) (as : List Arguments) (name : String) :
    σ.setDefaults (as.flatMap (·.bindings.entries)) name = (defaults as name).foldl Variables.fill (σ name) := by
  rw [Variables.setDefaults_apply, List.filterMap_flatMap, defaults, List.filterMap_eq_flatMap_toList]
  simp only [Bindings.filterMap_entries]

-- The merged arguments leave a variable as the arguments of the run do.
theorem setDefaults_union_iff (σ : Variables) (as : List Arguments) (name : String) :
    σ.setDefaults (union as).entries name = σ.setDefaults (as.flatMap (·.bindings.entries)) name ↔
      σ.Given name ∨
        Variables.firstGiven (defaults as name) = (defaults as name).getLast?.getD "" := by
  rw [setDefaults_eq, Variables.setDefaults_apply, Bindings.filterMap_entries, get?_union]
  exact Variables.foldl_fill_last_iff (σ name) (defaults as name)

end Arguments

namespace HostScript

-- A value without dollars, quotes and backslashes.
def IsLiteral (value : String) : Prop := ∀ c ∈ value.toList, c ∉ ['$', '"', '\'', '\\']

def defaultLine (name value : String) : String :=
  name ++ "=$\x7b" ++ name ++ ":-\"" ++ value ++ "\"\x7d"

-- A text of lines that give variables a default.
structure SetsDefaults (text : String) (entries : List (String × String)) : Prop where
  lines : text = "\n".intercalate (entries.map fun entry => defaultLine entry.1 entry.2)
  literal : ∀ entry ∈ entries, IsLiteral entry.2

theorem write_arguments {a : Arguments} (literal : ∀ entry ∈ a.bindings.entries, IsLiteral entry.2) :
    ∃ text, (write (.arguments a)).result = .ok text ∧ SetsDefaults text a.bindings.entries :=
  ⟨_, rfl, rfl, literal⟩

theorem literal_union {as : List Arguments}
    (literal : ∀ a ∈ as, ∀ entry ∈ a.bindings.entries, IsLiteral entry.2) :
    ∀ entry ∈ (Arguments.union as).entries, IsLiteral entry.2 := by
  rintro ⟨name, value⟩ member
  have last := (Bindings.mem_iff _).mp member
  rw [Arguments.get?_union] at last
  obtain ⟨a, found, given⟩ := List.mem_filterMap.mp (List.mem_of_getLast? last)
  exact literal a found (name, value) ((Bindings.mem_iff _).mpr given)

end HostScript

namespace Instruction

theorem mergeRun_arguments {as : List Arguments} (given : as ≠ []) :
    ∃ merged, (mergeRun (as.map .arguments)).result = .ok (.arguments merged) ∧
      merged.bindings = Arguments.union as := by
  match as with
  | [] => exact absurd rfl given
  | [a] => exact ⟨a, rfl, (Bindings.unionAll_singleton a.bindings).symm⟩
  | first :: second :: rest =>
    have folded := mergeRun_of_merge (List.cons_ne_nil _ _) (merge_arguments none first (second :: rest))
    exact ⟨_, congrArg Outcome.result folded, rfl⟩

-- What merging a run of arguments makes of each variable of a script, and when it is the same as without
-- merging.
theorem merged_arguments (items : List Instruction) (as : List Arguments)
    (run : as.map .arguments ∈ runs items)
    (literal : ∀ a ∈ as, ∀ entry ∈ a.bindings.entries, HostScript.IsLiteral entry.2) :
    ∃ merged, (mergeRun (as.map .arguments)).result = .ok (.arguments merged) ∧
      (∀ a ∈ merged :: as, ∃ text, (HostScript.write (.arguments a)).result = .ok text ∧
        HostScript.SetsDefaults text a.bindings.entries) ∧
      ∀ (start : Variables) (name : String),
        start.setDefaults merged.bindings.entries name =
            start.setDefaults (as.flatMap (·.bindings.entries)) name ↔
          start.Given name ∨ Variables.firstGiven (Arguments.defaults as name) =
            (Arguments.defaults as name).getLast?.getD "" := by
  have given : as ≠ [] := List.map_eq_nil_iff.not.mp (runs_nonempty items _ run)
  obtain ⟨merged, accepted, union⟩ := mergeRun_arguments given
  refine ⟨merged, accepted, ?_, ?_⟩
  · have all : ∀ a ∈ merged :: as, ∀ entry ∈ a.bindings.entries, HostScript.IsLiteral entry.2 := by
      refine List.forall_mem_cons.mpr ⟨?_, literal⟩
      rw [union]
      exact HostScript.literal_union literal
    intro a member
    exact HostScript.write_arguments (all a member)
  · intro start name
    rw [union]
    exact Arguments.setDefaults_union_iff start as name

-- An empty default, which a later one stands in for in either case.
theorem merged_arguments_empty :
    let as : List Arguments := [⟨.ofList [("A", "")]⟩, ⟨.ofList [("A", "2")]⟩]
    ∃ merged, (mergeRun (as.map .arguments)).result = .ok (.arguments merged) ∧
      ∀ start : Variables, start.setDefaults merged.bindings.entries =
        start.setDefaults (as.flatMap (·.bindings.entries)) := by
  intro as
  have literal : ∀ a ∈ as, ∀ entry ∈ a.bindings.entries, HostScript.IsLiteral entry.2 := by
    simp [as, HostScript.IsLiteral, Bindings.entries_single]
  obtain ⟨merged, accepted, -, same⟩ :=
    merged_arguments (as.map .arguments) as (by decide +kernel) literal
  refine ⟨merged, accepted, fun start => funext fun name => (same start name).mpr (.inr ?_)⟩
  by_cases named : name = "A"
  · subst named
    decide +kernel
  · have unbound : Arguments.defaults as name = [] := by
      simp [Arguments.defaults, as, Bindings.get?_single, named]
    rw [unbound]
    rfl

-- Of two defaults the first one counts, and merged the second one.
theorem merged_arguments_differ :
    let as : List Arguments := [⟨.ofList [("A", "1")]⟩, ⟨.ofList [("A", "2")]⟩]
    let merged : Arguments := ⟨.ofList [("A", "2")]⟩
    let start : Variables := fun _ => none
    as.map .arguments ∈ runs (as.map .arguments) ∧
      (∀ a ∈ as, ∀ entry ∈ a.bindings.entries, HostScript.IsLiteral entry.2) ∧
      (mergeRun (as.map .arguments)).result = .ok (.arguments merged) ∧
      start.setDefaults merged.bindings.entries "A" ≠
        start.setDefaults (as.flatMap (·.bindings.entries)) "A" := by
  intro as merged start
  refine ⟨by decide +kernel, ?_, by decide +kernel, by decide +kernel⟩
  simp [as, HostScript.IsLiteral, Bindings.entries_single]

end Instruction

end ContainerRecipe
