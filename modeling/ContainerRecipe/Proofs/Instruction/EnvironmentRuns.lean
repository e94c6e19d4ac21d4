import ContainerRecipe.Proofs.Instruction.Merged
import ContainerRecipe.Proofs.Instruction.Unions
import ContainerRecipe.Proofs.Render.Failure
import ContainerRecipe.Proofs.Shell.Variables

namespace ContainerRecipe

namespace Bindings

-- What follows for a name from the names before it holds of every name.
theorem ascending {P : String → Prop} {entries : List (String × String)}
    (ordered : entries.Pairwise fun a b => a.1 < b.1)
    (next : ∀ entry ∈ entries, (∀ other ∈ entries, other.1 < entry.1 → P other.1) → P entry.1) :
    ∀ entry ∈ entries, P entry.1 := by
  induction entries with
  | nil => intro entry member; cases member
  | cons first rest ih =>
    obtain ⟨after, tail⟩ := List.pairwise_cons.mp ordered
    have least : P first.1 := by
      refine next first List.mem_cons_self fun other member before => ?_
      rcases List.mem_cons.mp member with rfl | later
      · exact absurd before (String.lt_irrefl _)
      · exact absurd (String.lt_trans before (after _ later)) (String.lt_irrefl _)
    have others : ∀ entry ∈ rest, P entry.1 := by
      refine ih tail fun entry member smaller => ?_
      refine next entry (List.mem_cons_of_mem _ member) fun other found before => ?_
      rcases List.mem_cons.mp found with rfl | later
      · exact least
      · exact smaller other later before
    intro entry member
    rcases List.mem_cons.mp member with rfl | later
    · exact least
    · exact others entry later

end Bindings

-- The value that an environment of a run binds a name to, if no later one binds the name again.
structure Environment.Keeps (e : Environment) (after : List Environment) (name value : String) : Prop where
  bound : e.bindings.get? name = some value
  last : ∀ later ∈ after, later.bindings.get? name = none

namespace Environment

def union (es : List Environment) : Bindings := .unionAll (es.map (·.bindings))

theorem get?_union (es : List Environment) (name : String) :
    (union es).get? name = (es.filterMap fun e => e.bindings.get? name).getLast? :=
  Bindings.get?_unionAll_map Environment.bindings es name

theorem kept_of_union {es : List Environment} (found : (union es).get? name = some value) :
    ∃ before e after, es = before ++ e :: after ∧ e.Keeps after name value := by
  rw [get?_union] at found
  obtain ⟨before, e, after, split, bound, last⟩ := getLast?_filterMap_eq_some_iff.mp found
  exact ⟨before, e, after, split, bound, last⟩

theorem free_of_union {es : List Environment} (missing : (union es).get? name = none) :
    ∀ e ∈ es, e.bindings.get? name = none := by
  rw [get?_union, List.getLast?_eq_none_iff] at missing
  exact List.filterMap_eq_nil_iff.mp missing

section

-- The steps that a format makes of an environment assign no other names than the environment binds.
variable {steps : Environment → List Step} (frame : ∀ (e : Environment) (name : String),
  e.bindings.get? name = none → ∀ step ∈ steps e, step.lookup name = none)
include frame

theorem run_of_free (σ : Variables) {es : List Environment}
    (free : ∀ e ∈ es, e.bindings.get? name = none) : σ.run (es.flatMap steps) name = σ name := by
  apply Variables.run_of_free
  intro step member
  obtain ⟨e, found, inside⟩ := List.mem_flatMap.mp member
  exact frame e name (free e found) step inside

-- A value that is kept is settled by the steps of its own environment.
theorem run_of_kept (σ : Variables) {e : Environment} (kept : e.Keeps after name value) :
    σ.run ((before ++ e :: after).flatMap steps) name =
      (σ.run (before.flatMap steps)).run (steps e) name := by
  rw [List.flatMap_append, List.flatMap_cons, Variables.run_append, Variables.run_append,
    run_of_free frame _ kept.last]

end

end Environment

namespace Dockerfile

-- The bindings of an `ENV` instruction are assigned at once.
def environmentSteps (e : Environment) : List Step := [e.bindings.entries]

-- The one step is what the instruction is written from.
theorem write_environment (e : Environment) (given : e.bindings.isEmpty = false) :
    (write (.environment e)).result = .ok ("\n".intercalate ((environmentSteps e).map fun step =>
      "ENV " ++ continued (step.map fun (name, value) => name ++ "=" ++ value))) := by
  have text : keyValues "ENV" e.bindings = "ENV " ++ continued e.bindings.assignments := by
    simp [keyValues, given]
  unfold write
  rw [result_after_ignoreApp, text]
  rfl

-- No value that is kept refers to a name that an earlier environment of the run binds.
def Detached (es : List Environment) : Prop :=
  ∀ before e after name value, es = before ++ e :: after → e.Keeps after name value →
    ∀ other, .reference other ∈ pieces value → ∀ earlier ∈ before, earlier.bindings.get? other = none

theorem steps_frame (e : Environment) (name : String) (free : e.bindings.get? name = none) :
    ∀ step ∈ environmentSteps e, step.lookup name = none := by
  intro step member
  rw [List.mem_singleton.mp member]
  exact free

theorem run_environment (σ : Variables) {e : Environment} (bound : e.bindings.get? name = some value) :
    σ.run (environmentSteps e) name = some (σ.spell (pieces value)) :=
  Variables.assign_of_bound σ bound

theorem run_of_detached {es : List Environment} (detached : Detached es) {merged : Environment}
    (union : merged.bindings = Environment.union es) (σ : Variables) :
    σ.run (environmentSteps merged) = σ.run (es.flatMap environmentSteps) := by
  funext name
  cases found : merged.bindings.get? name with
  | none =>
    have free := Environment.free_of_union (union ▸ found)
    rw [Environment.run_of_free steps_frame σ free]
    exact Variables.assign_of_free σ found
  | some value =>
    obtain ⟨before, e, after, rfl, kept⟩ := Environment.kept_of_union (union ▸ found)
    have same : ∀ other, .reference other ∈ pieces value →
        σ other = σ.run (before.flatMap environmentSteps) other := by
      intro other refers
      have free := detached before e after name value rfl kept other refers
      exact (Environment.run_of_free steps_frame σ free).symm
    rw [Environment.run_of_kept steps_frame σ kept, run_environment _ kept.bound, run_environment σ found,
      Variables.spell_congr same]

end Dockerfile

namespace HostScript

-- A script exports one binding after another.
def environmentSteps (e : Environment) : List Step := e.bindings.entries.map fun entry => [entry]

-- Each step is one line of the script.
theorem write_environment (e : Environment) :
    (write (.environment e)).result = .ok ("\n".intercalate ((environmentSteps e).flatMap fun step =>
      step.map fun (name, value) => "export " ++ (name ++ "=" ++ value))) := by
  have lines : exports e.bindings = (environmentSteps e).flatMap fun step =>
      step.map fun (name, value) => "export " ++ (name ++ "=" ++ value) := by
    simp only [exports, Bindings.assignments, environmentSteps, List.map_map, List.flatMap_map,
      List.map_cons, List.map_nil]
    exact List.map_eq_flatMap
  rw [← lines]
  rfl

-- No value that is kept refers to a name that another environment of the run binds.
def Detached (es : List Environment) : Prop :=
  ∀ before e after name value, es = before ++ e :: after → e.Keeps after name value →
    ∀ other, .reference other ∈ pieces value →
      ∀ another ∈ before ++ after, another.bindings.get? other = none

theorem exports_of_free (σ : Variables) {entries : List (String × String)}
    (free : ∀ entry ∈ entries, entry.1 ≠ name) :
    σ.run (entries.map fun entry => [entry]) name = σ name := by
  apply Variables.run_of_free
  intro step member
  obtain ⟨entry, found, rfl⟩ := List.mem_map.mp member
  rw [lookup_pair, if_neg (Ne.symm (free entry found))]
  rfl

theorem steps_frame (e : Environment) (name : String) (free : e.bindings.get? name = none) :
    ∀ step ∈ environmentSteps e, step.lookup name = none := by
  intro step member
  obtain ⟨entry, found, rfl⟩ := List.mem_map.mp member
  have other : name ≠ entry.1 := by
    rintro rfl
    rw [(Bindings.mem_iff _).mp found] at free
    cases free
  rw [lookup_pair, if_neg other]
  rfl

-- A value is read where the names before its own are exported already, and no others are.
theorem run_environment (σ : Variables) {e : Environment} (bound : e.bindings.get? name = some value) :
    σ.run (environmentSteps e) name = some (Variables.spell
      (fun n => if n < name then σ.run (environmentSteps e) n else σ n) (pieces value)) := by
  obtain ⟨front, back, split⟩ := List.append_of_mem ((Bindings.mem_iff _).mpr bound)
  have ordered := e.bindings.ordered
  rw [split] at ordered
  obtain ⟨-, right, across⟩ := List.pairwise_append.mp ordered
  obtain ⟨above, -⟩ := List.pairwise_cons.mp right
  have below : ∀ entry ∈ front, entry.1 < name := fun entry member =>
    across entry member (name, value) List.mem_cons_self
  -- The lines after the one for the name leave every name alone that is not above it.
  have last : ∀ n, ¬ name < n → σ.run (environmentSteps e) n =
      ((σ.run (front.map fun entry => [entry])).assign [(name, value)]) n := by
    intro n notAbove
    unfold environmentSteps
    rw [split, List.map_append, List.map_cons, Variables.run_append, Variables.run_cons]
    refine exports_of_free _ fun entry member same => notAbove ?_
    exact same ▸ above entry member
  have seen : ∀ n, σ.run (front.map fun entry => [entry]) n =
      if n < name then σ.run (environmentSteps e) n else σ n := by
    intro n
    split
    · rename_i before
      have apart : n ≠ name := fun same => String.lt_irrefl _ (same ▸ before)
      rw [last n fun reverse => String.lt_irrefl _ (String.lt_trans before reverse),
        Variables.assign_of_free _ (by rw [lookup_pair, if_neg apart]; rfl)]
    · rename_i notBefore
      exact exports_of_free σ fun entry member same => notBefore (same ▸ below entry member)
  rw [last name (String.lt_irrefl _), Variables.assign_of_bound _ List.lookup_cons_self, funext seen]

theorem run_of_detached {es : List Environment} (detached : Detached es) {merged : Environment}
    (union : merged.bindings = Environment.union es) (σ : Variables) :
    σ.run (environmentSteps merged) = σ.run (es.flatMap environmentSteps) := by
  have unbound : ∀ n, merged.bindings.get? n = none →
      σ.run (environmentSteps merged) n = σ.run (es.flatMap environmentSteps) n := by
    intro n missing
    rw [Environment.run_of_free steps_frame σ (Environment.free_of_union (union ▸ missing))]
    exact Variables.run_of_free σ _ (steps_frame merged n missing)
  -- By induction on the order of the lines: a line reads only what the lines before it have exported.
  have bound : ∀ entry ∈ merged.bindings.entries,
      σ.run (environmentSteps merged) entry.1 = σ.run (es.flatMap environmentSteps) entry.1 := by
    refine Bindings.ascending
      (P := fun n => σ.run (environmentSteps merged) n = σ.run (es.flatMap environmentSteps) n)
      merged.bindings.ordered ?_
    rintro ⟨name, value⟩ member smaller
    have found := (Bindings.mem_iff _).mp member
    obtain ⟨before, e, after, rfl, kept⟩ := Environment.kept_of_union (union ▸ found)
    rw [Environment.run_of_kept steps_frame σ kept, run_environment _ kept.bound, run_environment σ found]
    refine congrArg some (Variables.spell_congr fun other refers => ?_)
    have free := detached before e after name value rfl kept other refers
    have freeBefore : σ.run (before.flatMap environmentSteps) other = σ other :=
      Environment.run_of_free steps_frame σ fun earlier member => free earlier (List.mem_append_left _ member)
    have freeAfter : ∀ τ : Variables, τ.run (after.flatMap environmentSteps) other = τ other :=
      fun τ => Environment.run_of_free steps_frame τ fun later member =>
        free later (List.mem_append_right _ member)
    split
    · rename_i lower
      have ended : σ.run (environmentSteps merged) other =
          σ.run ((before ++ e :: after).flatMap environmentSteps) other := by
        cases told : merged.bindings.get? other with
        | none => exact unbound other told
        | some v => exact smaller (other, v) ((Bindings.mem_iff _).mpr told) lower
      rw [ended, List.flatMap_append, List.flatMap_cons, Variables.run_append, Variables.run_append,
        freeAfter]
    · exact freeBefore.symm
  funext name
  cases found : merged.bindings.get? name with
  | none => exact unbound name found
  | some value => exact bound (name, value) ((Bindings.mem_iff _).mpr found)

end HostScript

namespace Instruction

theorem mergeRun_environments {es : List Environment} (given : es ≠ []) :
    ∃ merged, (mergeRun (es.map .environment)).result = .ok (.environment merged) ∧
      merged.bindings = Environment.union es := by
  match es with
  | [] => exact absurd rfl given
  | [e] => exact ⟨e, rfl, (Bindings.unionAll_singleton e.bindings).symm⟩
  | first :: second :: rest =>
    have folded := mergeRun_of_merge (List.cons_ne_nil _ _)
      (merge_environments first.app first (second :: rest))
    exact ⟨_, congrArg Outcome.result folded, rfl⟩

-- What merging a run of environments makes of the variables. Whether it is the same from every start as
-- without merging can be read off the two accounts, in either format.
theorem merged_environments (items : List Instruction) (es : List Environment)
    (run : es.map .environment ∈ runs items) :
    ∃ merged, (mergeRun (es.map .environment)).result = .ok (.environment merged) ∧
      ((∀ start : Variables, start.run (Dockerfile.environmentSteps merged) =
          start.run (es.flatMap Dockerfile.environmentSteps)) ↔
        Account.ofSteps (Dockerfile.environmentSteps merged) =
          Account.ofSteps (es.flatMap Dockerfile.environmentSteps)) ∧
      ((∀ start : Variables, start.run (HostScript.environmentSteps merged) =
          start.run (es.flatMap HostScript.environmentSteps)) ↔
        Account.ofSteps (HostScript.environmentSteps merged) =
          Account.ofSteps (es.flatMap HostScript.environmentSteps)) ∧
      (Dockerfile.Detached es → ∀ start : Variables, start.run (Dockerfile.environmentSteps merged) =
        start.run (es.flatMap Dockerfile.environmentSteps)) ∧
      (HostScript.Detached es → ∀ start : Variables, start.run (HostScript.environmentSteps merged) =
        start.run (es.flatMap HostScript.environmentSteps)) := by
  have given : es ≠ [] := by
    intro empty
    exact runs_nonempty items _ run (by rw [empty, List.map_nil])
  obtain ⟨merged, accepted, union⟩ := mergeRun_environments given
  refine ⟨merged, accepted, Account.run_eq_iff _ _, Account.run_eq_iff _ _, ?_, ?_⟩
  · intro detached start
    exact Dockerfile.run_of_detached detached union start
  · intro detached start
    exact HostScript.run_of_detached detached union start

-- A search path that refers to itself, next to an environment that does not bind it.
theorem merged_environments_path :
    let es : List Environment :=
      [⟨.ofList [("ARCH", "x86")], false, none⟩, ⟨.ofList [("PATH", "/a:$PATH")], false, none⟩]
    ∃ merged, (mergeRun (es.map .environment)).result = .ok (.environment merged) ∧
      ∀ start : Variables, start.run (HostScript.environmentSteps merged) =
        start.run (es.flatMap HostScript.environmentSteps) := by
  intro es
  obtain ⟨merged, accepted, -, -, -, same⟩ :=
    merged_environments (es.map .environment) es (by decide +kernel)
  refine ⟨merged, accepted, same ?_⟩
  intro before e after name value split kept other refers another member
  have bound := kept.bound
  rcases before with _ | ⟨first, _ | ⟨second, longer⟩⟩
  · obtain ⟨rfl, rfl⟩ := List.cons.inj split
    simp only [Bindings.get?_single, Option.ite_none_right_eq_some, Option.some.injEq] at bound
    rw [← bound.2, show pieces "x86" = [.letter 'x', .letter '8', .letter '6'] by decide +kernel] at refers
    simp at refers
  · obtain ⟨rfl, rest⟩ := List.cons.inj split
    obtain ⟨rfl, rfl⟩ := List.cons.inj rest
    simp only [Bindings.get?_single, Option.ite_none_right_eq_some, Option.some.injEq] at bound
    rw [← bound.2, show pieces "/a:$PATH" =
      [.letter '/', .letter 'a', .letter ':', .reference "PATH"] by decide +kernel] at refers
    obtain rfl : other = "PATH" := by simpa using refers
    obtain rfl : another = ⟨.ofList [("ARCH", "x86")], false, none⟩ := by simpa using member
    simp [Bindings.get?_single]
  · simp [es] at split

-- Of two neighbours that put a directory in front of the search path, only the second one's is left.
theorem merged_path_differs :
    let es : List Environment :=
      [⟨.ofList [("PATH", "/a:$PATH")], false, none⟩, ⟨.ofList [("PATH", "/b:$PATH")], false, none⟩]
    let merged : Environment := ⟨.ofList [("PATH", "/b:$PATH")], false, none⟩
    let start : Variables := fun _ => some "/bin"
    es.map .environment ∈ runs (es.map .environment) ∧
      (mergeRun (es.map .environment)).result = .ok (.environment merged) ∧
      start.run (Dockerfile.environmentSteps merged) ≠
        start.run (es.flatMap Dockerfile.environmentSteps) ∧
      start.run (HostScript.environmentSteps merged) ≠
        start.run (es.flatMap HostScript.environmentSteps) := by
  intro es merged start
  refine ⟨by decide +kernel, by decide +kernel, ?_, ?_⟩
  · intro same
    exact absurd (congrFun same "PATH") (by decide +kernel)
  · intro same
    exact absurd (congrFun same "PATH") (by decide +kernel)

end Instruction

end ContainerRecipe
