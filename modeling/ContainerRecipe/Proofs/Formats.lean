import ContainerRecipe.Options
import ContainerRecipe.Recipe

namespace ContainerRecipe

variable (f : Format)

section

def Target.inFormat (t : Target) : Target := { t with format := f }

theorem Block.install_inFormat (b : Block) (t : Target) : b.install (t.inFormat f) = b.install t := by
  cases b with
  | packages | gnu | nvhpc | autotools => rfl

theorem Block.runtime_inFormat (t : Target) (source : String) (b : Block) :
    b.runtime (t.inFormat f) source = b.runtime t source := by
  cases b with
  | packages | gnu | nvhpc | autotools => rfl

end

section

def Stage.inFormat (s : Stage) : Stage := { s with target := s.target.inFormat f }

theorem Stage.append_inFormat (s : Stage) (layers : List Layer) :
    (s.inFormat f).append layers = (s.append layers).inFormat f := rfl

theorem Stage.expand_inFormat (s : Stage) (b : Block) : (s.inFormat f).expand b = s.expand b := by
  unfold expand
  rw [show (s.inFormat f).target = s.target.inFormat f from rfl, Block.install_inFormat]

theorem Stage.runtime_inFormat (s : Stage) (t : Target) (source : String) (exclude : List String) :
    (s.inFormat f).runtime (t.inFormat f) source exclude = s.runtime t source exclude := by
  have same : Block.runtime (t.inFormat f) source = Block.runtime t source :=
    funext (Block.runtime_inFormat f t source)
  unfold runtime
  rw [same]
  rfl

end

section

def Recipe.inFormat (r : Recipe) : Recipe := ⟨r.stages.map (·.inFormat f)⟩

theorem Recipe.stage?_inFormat (r : Recipe) (index : Nat) :
    (r.inFormat f).stage? index = (r.stage? index).map (·.inFormat f) := List.getElem?_map ..

theorem Recipe.hasStage_inFormat (r : Recipe) (name : String) :
    (r.inFormat f).hasStage name = r.hasStage name := by
  unfold hasStage inFormat
  rw [List.any_map]
  rfl

theorem Recipe.push_inFormat (r : Recipe) (stage : Stage) :
    (r.inFormat f).push (stage.inFormat f) = (r.push stage).inFormat f := by
  unfold push inFormat
  rw [List.map_append]
  rfl

theorem Recipe.append_inFormat (r : Recipe) (index : Nat) (layers : List Layer) :
    (r.inFormat f).append index layers = (r.append index layers).inFormat f := by
  unfold append inFormat
  congr 1
  refine List.ext_getElem? fun place => ?_
  simp only [List.getElem?_map, List.getElem?_modify]
  cases r.stages[place]? with
  | none => rfl
  | some stage => split <;> rfl

def Options.inFormat (o : Options) : Options := { o with format := f }

end

end ContainerRecipe
