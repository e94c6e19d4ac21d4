import ContainerRecipe.Proofs.Block.Refusal
import ContainerRecipe.Stage

namespace ContainerRecipe

-- A block that can be carried into a stage with any target, from a stage called by any text.
def Block.Portable (b : Block) : Prop := ∀ target source, ∃ ps, (b.runtime target source).result = .ok ps

theorem Autotools.url_of_build {a : Autotools} (built : a.build t = .ok ps) : ∃ url, a.url = some url := by
  unfold build at built
  obtain ⟨url, given, -⟩ := Outcome.result_bind_ok_iff.mp built
  exact ⟨url, requireUrl_ok_iff.mp given⟩

-- The URL is all that a package built from source needs to be carried over, and the build has checked it.
theorem Autotools.runtime_of_url {a : Autotools} {link : String} (given : a.url = some link) (source : String) :
    ∃ ps, a.runtime source = .ok ps := by
  unfold runtime
  rw [requireUrl_ok_iff.mpr given]
  exact ⟨_, rfl⟩

theorem Block.portable_of_install {b : Block} (installed : (b.install t).result = .ok ps) : b.Portable := by
  intro target source
  cases b with
  | packages r => exact ⟨[], rfl⟩
  | gnu g => exact ⟨(g.runtime target).value, rfl⟩
  | nvhpc n => exact ⟨(n.runtime target source).value, rfl⟩
  | autotools a =>
    obtain ⟨url, given⟩ := Autotools.url_of_build installed
    exact Autotools.runtime_of_url given source

namespace Stage

-- What is put on a stage in one call.
inductive Addition where
  | instruction (p : Instruction)
  | block (b : Block)

-- The stage after a call. A block that cannot be installed leaves the stage as it was.
def take (s : Stage) : Addition → Stage
  | .instruction p => s.push p
  | .block b =>
    match (s.addBlock b).result with
    | .ok grown => grown
    | .error _ => s

-- A stage that was started from a base image, after some calls.
def built (template : Target) (name : Option String) (base : BaseImage) (family : Option PackageFamily)
    (additions : List Addition) : Stage :=
  additions.foldl take ((ofBase template name base).value.withPackageFamily family)

-- Every block on the stage can be carried into other stages.
def Portable (s : Stage) : Prop := ∀ b ∈ s.blocks, b.Portable

theorem addBlock_ok {s : Stage} (added : (s.addBlock b).result = .ok grown) :
    ∃ expansion, (b.install s.target).result = .ok expansion ∧ grown = s.append [.block b expansion] := by
  unfold addBlock at added
  obtain ⟨layer, expanded, made⟩ := Outcome.bind_ok_iff.mp added
  cases made
  unfold expand at expanded
  obtain ⟨expansion, installed, shaped⟩ := Outcome.bind_ok_iff.mp expanded
  cases shaped
  exact ⟨expansion, installed, rfl⟩

theorem append_blocks (s : Stage) (layers : List Layer) :
    (s.append layers).blocks = s.blocks ++ layers.filterMap Layer.block? := List.filterMap_append

theorem append_instructions_blocks (s : Stage) (ps : List Instruction) :
    (s.append (ps.map .instruction)).blocks = s.blocks := by
  have none : (ps.map Layer.instruction).filterMap Layer.block? = [] := by
    rw [List.filterMap_map, List.filterMap_eq_nil_iff]
    exact fun _ _ => rfl
  rw [append_blocks, none, List.append_nil]

theorem foldl_push (s : Stage) (ps : List Instruction) : ps.foldl push s = s.append (ps.map .instruction) := by
  induction ps generalizing s with
  | nil => simp [append]
  | cons p ps ih =>
    rw [List.foldl_cons, ih]
    simp [push, append]

theorem take_portable {s : Stage} (before : s.Portable) (addition : Addition) : (s.take addition).Portable := by
  cases addition with
  | instruction p =>
    have same : (s.push p).blocks = s.blocks := s.append_instructions_blocks [p]
    intro b member
    exact before b (same ▸ member)
  | block b =>
    simp only [take]
    cases told : (s.addBlock b).result with
    | error cause => exact before
    | ok grown =>
      obtain ⟨expansion, installed, rfl⟩ := addBlock_ok told
      intro kept member
      rw [append_blocks, List.mem_append] at member
      rcases member with old | new
      · exact before kept old
      · cases List.mem_singleton.mp new
        exact Block.portable_of_install installed

theorem built_portable (template : Target) (name : Option String) (base : BaseImage)
    (family : Option PackageFamily) (additions : List Addition) :
    (built template name base family additions).Portable := by
  have grows (s : Stage) (before : s.Portable) : (additions.foldl take s).Portable := by
    induction additions generalizing s with
    | nil => exact before
    | cons addition rest ih => exact ih _ (take_portable before addition)
  exact grows _ fun b member => absurd member List.not_mem_nil

theorem runtime_of_portable {s : Stage} (portable : s.Portable) (target : Target) (source : String)
    (exclude : List String) : ∃ ps, (s.runtime target source exclude).result = .ok ps := by
  rw [Outcome.ok_iff_not_fails]
  unfold runtime
  dsimp only
  rw [Outcome.bind_fails_iff_left fun _ => Outcome.pure_not_fails _, Outcome.mapM_fails_iff]
  rintro ⟨b, kept, failed⟩
  obtain ⟨ps, carried⟩ := portable b (List.mem_of_mem_filter kept) target source
  exact Outcome.not_fails_of_ok carried failed

-- Whatever was put on a stage, and whatever calls failed, it can be asked for its runtime part, for any
-- target, under any text and without any of its blocks.
theorem built_runtime_ok (template : Target) (name : Option String) (base : BaseImage)
    (family : Option PackageFamily) (additions : List Addition) (target : Target) (source : String)
    (exclude : List String) :
    ∃ ps, ((built template name base family additions).runtime target source exclude).result = .ok ps :=
  runtime_of_portable (built_portable template name base family additions) target source exclude

end Stage

end ContainerRecipe
