import ContainerRecipe.Proofs.Block.Refusal
import ContainerRecipe.Proofs.Script.Names

namespace ContainerRecipe

-- The names of the stages declared before a place.
def Recipe.namesBefore (r : Recipe) (target : Nat) : List (Option String) :=
  (r.stages.take target).map Stage.name

-- Where the text in a copy leads, among the stages declared before the one that the copy is in: to the
-- stage with that name if there is one, otherwise to the stage with that position.
def Recipe.resolve? (r : Recipe) (target : Nat) (text : String) : Option Nat :=
  ((r.namesBefore target).findIdx? (· = some text)).or
    ((List.range (r.namesBefore target).length).find? (Nat.repr · = text))

section

-- Every copy among some instructions takes its files from the stage that `source` calls.
def CopiesFrom (source : String) (ps : List Instruction) : Prop :=
  ∀ c, Instruction.copy c ∈ ps → c.source = some source

theorem CopiesFrom.append (first : CopiesFrom source ps) (second : CopiesFrom source qs) :
    CopiesFrom source (ps ++ qs) := by
  intro c member
  rcases List.mem_append.mp member with before | after
  · exact first c before
  · exact second c after

theorem PackageRequest.install_copiesFrom (r : PackageRequest) (t : Target) (source : String) :
    CopiesFrom source (r.install t).value := by
  intro c member
  obtain ⟨s, never⟩ := r.install_shell t _ member
  cases never

theorem Autotools.runtime_copiesFrom {a : Autotools} (carried : a.runtime source = .ok ps) :
    CopiesFrom source ps := by
  cases given : a.url with
  | none => simp [runtime, requireUrl, given, bind, Except.bind] at carried
  | some url =>
    simp only [runtime, requireUrl, given, bind, Except.bind, pure, Except.pure, Except.ok.injEq] at carried
    subst carried
    refine .append (.append ?_ ?_) ?_
    · intro c member
      rcases List.mem_cons.mp member with comment | copy
      · cases comment
      · cases List.mem_singleton.mp copy
        rfl
    · intro c member
      split at member
      · cases List.mem_singleton.mp member
      · cases member
    · intro c member
      unfold environmentInstructions at member
      split at member
      · cases List.mem_singleton.mp member
      · cases member

theorem Block.runtime_copiesFrom {b : Block} {t : Target}
    (carried : (b.runtime t source).result = .ok ps) : CopiesFrom source ps := by
  cases b with
  | packages r =>
    cases carried
    exact fun _ member => absurd member List.not_mem_nil
  | gnu g =>
    cases carried
    exact PackageRequest.install_copiesFrom _ t source
  | nvhpc n =>
    cases carried
    refine .append (PackageRequest.install_copiesFrom _ t source) ?_
    intro c member
    rcases List.mem_cons.mp member with copy | environment
    · cases copy
      rfl
    · cases List.mem_singleton.mp environment
  | autotools a => exact Autotools.runtime_copiesFrom carried

theorem Stage.runtime_copiesFrom {s : Stage} {t : Target} {exclude : List String}
    (carried : (s.runtime t source exclude).result = .ok ps) : CopiesFrom source ps := by
  unfold runtime at carried
  obtain ⟨parts, each, made⟩ := Outcome.bind_ok_iff.mp carried
  cases made
  intro c member
  obtain ⟨part, inside, copied⟩ := List.mem_flatten.mp member
  obtain ⟨b, -, there⟩ := Outcome.exists_of_mapM each part inside
  exact Block.runtime_copiesFrom there c copied

end

namespace Recipe

variable {r : Recipe} {target source : Nat}

theorem getElem?_namesBefore : (r.namesBefore target)[place]? = some name ↔
    place < target ∧ ∃ stage, r.stage? place = some stage ∧ stage.name = name := by
  unfold namesBefore stage?
  rw [List.getElem?_map, List.getElem?_take]
  split
  · rename_i before
    simp only [before, true_and, Option.map_eq_some_iff]
  · rename_i beyond
    simp only [beyond, false_and, Option.map_none, reduceCtorEq]

-- A text leads to a stage before the target, if anywhere.
theorem lt_of_resolve? (resolved : r.resolve? target text = some source) : source < target := by
  have bound : (r.namesBefore target).length ≤ target := by
    unfold namesBefore
    rw [List.length_map, List.length_take]
    exact Nat.min_le_left ..
  unfold resolve? at resolved
  rcases Option.or_eq_some_iff.mp resolved with named | ⟨-, counted⟩
  · obtain ⟨inside, -⟩ := List.findIdx?_eq_some_iff_getElem.mp named
    omega
  · have inside := List.mem_range.mp (List.mem_of_find?_eq_some counted)
    omega

-- A name leads to the one stage that has it.
theorem resolve?_name (distinct : r.Distinct) (present : r.stage? source = some origin)
    (named : origin.name = some text) (before : source < target) : r.resolve? target text = some source := by
  obtain ⟨inside, there⟩ :=
    List.getElem?_eq_some_iff.mp (getElem?_namesBefore.mpr ⟨before, origin, present, named⟩)
  have found : (r.namesBefore target).findIdx? (· = some text) = some source := by
    refine List.findIdx?_eq_some_iff_getElem.mpr ⟨inside, decide_eq_true there, ?_⟩
    intro earlier first called
    have same := (List.getElem?_eq_getElem (Nat.lt_trans first inside)).trans
      (congrArg some (of_decide_eq_true called))
    obtain ⟨-, other, elsewhere, alike⟩ := getElem?_namesBefore.mp same
    exact absurd (distinct.place_unique elsewhere present alike named) (Nat.ne_of_lt first)
  unfold resolve?
  rw [found, Option.some_or]

theorem repr_injective : Function.Injective Nat.repr := by
  intro m n same
  have digits : Nat.toDigits 10 m = Nat.toDigits 10 n := by
    rw [← Nat.toList_repr, ← Nat.toList_repr, same]
  rw [← Nat.ofDigitChars_ten_toDigits (n := m), digits, Nat.ofDigitChars_ten_toDigits]

-- A position leads to its stage, unless a stage is named so.
theorem resolve?_position (present : r.stage? source = some origin)
    (free : some (Nat.repr source) ∉ r.namesBefore target) (before : source < target) :
    r.resolve? target (Nat.repr source) = some source := by
  obtain ⟨inside, -⟩ :=
    List.getElem?_eq_some_iff.mp (getElem?_namesBefore.mpr ⟨before, origin, present, rfl⟩)
  have unnamed : (r.namesBefore target).findIdx? (· = some (Nat.repr source)) = none := by
    rw [List.findIdx?_eq_none_iff]
    intro name member
    refine decide_eq_false fun same => free ?_
    rw [← same]
    exact member
  unfold resolve?
  rw [unnamed, Option.none_or, List.find?_range_eq_some]
  refine ⟨by simp, List.mem_range.mpr inside, ?_⟩
  intro earlier first
  simp [repr_injective.eq_iff, Nat.ne_of_lt first]

theorem append_namesBefore (index : Nat) (layers : List Layer) :
    (r.append index layers).namesBefore target = r.namesBefore target := by
  unfold namesBefore
  rw [List.map_take, List.map_take, append_names]

theorem append_resolve? (index : Nat) (layers : List Layer) :
    (r.append index layers).resolve? target text = r.resolve? target text := by
  unfold resolve?
  rw [append_namesBefore]

-- What is put on a stage is added there, and nothing is added elsewhere.
theorem mem_added_append {r : Recipe} (present : r.stage? index = some stage)
    (added : (place, p) ∈ r.added (r.append index layers)) :
    place = index ∧ p ∈ layers.flatMap Layer.instructions := by
  unfold Recipe.added at added
  rw [append_stages present] at added
  obtain ⟨⟨later, there⟩, listed, here⟩ := List.mem_flatMap.mp added
  obtain ⟨q, new, same⟩ := List.mem_map.mp here
  cases same
  have found := List.mem_zipIdx_iff_getElem?.mp listed
  by_cases called : index = place
  · subst called
    have inside : index < r.stages.length := (List.getElem?_eq_some_iff.mp present).1
    rw [List.getElem?_set_self inside] at found
    have same : stage.append layers = later := Option.some.inj found
    have grown : later.instructions = stage.instructions ++ layers.flatMap Layer.instructions := by
      rw [← same]
      simp [Stage.instructions, Stage.append]
    rw [present, Option.map_some, Option.getD_some, grown, List.drop_left] at new
    exact ⟨rfl, new⟩
  · rw [List.getElem?_set_ne called] at found
    have known : r.stage? place = some later := found
    rw [known, Option.map_some, Option.getD_some, List.drop_length] at new
    cases new

end Recipe

namespace Script

open ContainerRecipe.Script.Action

theorem Session.reference_ok {format : Format} {place : Nat} {source : Stage}
    (referred : reference format place source = .ok text) : text = source.name.getD (Nat.repr place) := by
  unfold reference at referred
  split at referred
  · rename_i name named
    cases referred
    rw [named]
    rfl
  · rename_i unnamed
    split at referred
    · cases referred
    · cases referred
      rw [unnamed]
      rfl

-- The session after some expressions are evaluated one after another.
def Session.evaluated (o : Options) (es : List Expression) : Session :=
  es.foldl (fun s e => (s.step { options := o } (evaluate load e)).2) (Session.start o none)

theorem Reachable.evaluated (o : Options) (es : List Expression) : Reachable o (Session.evaluated o es) := by
  have after (s : Session) (before : Reachable o s) :
      Reachable o (es.foldl (fun s e => (s.step { options := o } (Script.evaluate load e)).2) s) := by
    induction es generalizing s with
    | nil => exact before
    | cons e es ih => exact ih _ (.evaluate { options := o } rfl callLimit e before)
  exact after _ (.start none)

-- A call that carries the runtime of the stage `source` into the stage `target`.
def callRuntime (target source : Nat) (options : List Value) : Action (List Value) :=
  callFunction load (.method .runtime) (.stage target :: .stage source :: options)

-- The copies that a call puts on the target call the source by its name, or else by its position, whichever
-- of the two was declared first. Unless another stage before the target is named like the position of a
-- source without a name, this leads to the source exactly if the source was declared before the target.
theorem runtime_copies_resolve (reachable : Reachable o s) (setting : Setting) (target source : Nat)
    (options : List Value) (accepted : (s.step setting (callRuntime target source options)).1.isOk) :
    let after := (s.step setting (callRuntime target source options)).2.recipe
    ∃ origin, s.recipe.stage? source = some origin ∧
      ∀ place c, (place, .copy c) ∈ s.recipe.added after → place = target ∧
        ∃ text, c.source = some text ∧ text = origin.name.getD (Nat.repr source) ∧
          ((origin.name = none → some text ∉ after.namesBefore target) →
            (after.resolve? target text = some source ↔ source < target)) := by
  have called : callRuntime target source options = callMethod target .runtime (.stage source :: options) := rfl
  rw [called] at accepted ⊢
  rcases callMethod_cases setting s target .runtime (.stage source :: options) with
    ⟨fault, warnings, failed⟩ | ⟨before, effect, warnings, given, tables, present, settled, done⟩
  · rw [failed] at accepted
    cases accepted
  · rw [done]
    obtain ⟨other, origin, text, exclude, ps, handed, there, referred, projected, layers⟩ :=
      Session.runtimeEffect_cases (congrArg Outcome.result settled)
    cases handed
    refine ⟨origin, there, fun place c added => ?_⟩
    obtain ⟨here, copied⟩ := Recipe.mem_added_append present added
    have among : Instruction.copy c ∈ ps := by
      rw [layers] at copied
      simpa [Layer.instructions] using copied
    have text_eq := Session.reference_ok referred
    refine ⟨here, text, Stage.runtime_copiesFrom projected c among, text_eq, ?_⟩
    rw [Recipe.append_resolve?, Recipe.append_namesBefore]
    intro free
    refine ⟨Recipe.lt_of_resolve?, fun earlier => ?_⟩
    cases named : origin.name with
    | some name =>
      have same : text = name := by rw [text_eq, named, Option.getD_some]
      subst same
      exact Recipe.resolve?_name reachable.distinct there named earlier
    | none =>
      have same : text = Nat.repr source := by rw [text_eq, named, Option.getD_none]
      subst same
      exact Recipe.resolve?_position there (free named) earlier

-- The runtime of a stage without a name, in the stage after it.
theorem runtime_copies_resolve_position :
    let stage : Expression := .call (.constant (.function .stage)) [.text "alpine"]
    let build : Expression := .call (.constant (.function (.method .autotools)))
      [.constant (.stage 0), .table [] [("url", .text "https://example.com/zlib-1.3.tar.gz")]]
    let s := Session.evaluated {} [stage, stage, build]
    let after := (s.step {} (callRuntime 1 0 [])).2.recipe
    let copy : Copy := { entries := [⟨["/usr/local"], "/usr/local"⟩], source := some "0" }
    (1, .copy copy) ∈ s.recipe.added after ∧ after.resolve? 1 "0" = some 0 := by
  intro stage build s after copy
  have added : (1, .copy copy) ∈ s.recipe.added after := by decide +kernel
  have reachable : Reachable {} s := .evaluated {} [stage, stage, build]
  have accepted : (s.step {} (callRuntime 1 0 [])).1.isOk := by decide +kernel
  obtain ⟨origin, there, copies⟩ := runtime_copies_resolve reachable {} 1 0 [] accepted
  obtain ⟨-, text, source, -, resolves⟩ := copies 1 copy added
  cases source
  have free : some "0" ∉ after.namesBefore 1 := by decide +kernel
  exact ⟨added, (resolves fun _ => free).mpr (by decide)⟩

-- A stage that was declared later is called by its position as well, where no stage is before the target.
-- And where a stage is named like the position of another, the text leads to the one with the name.
theorem runtime_copies_astray :
    let stage (name : List (String × Expression)) : Expression :=
      .call (.constant (.function .stage)) [.table [] (("image", .text "alpine") :: name)]
    let build (place : Nat) : Expression := .call (.constant (.function (.method .autotools)))
      [.constant (.stage place), .table [] [("url", .text "https://example.com/zlib-1.3.tar.gz")]]
    let copy (source : String) : Copy := { entries := [⟨["/usr/local"], "/usr/local"⟩], source := some source }
    let later := Session.evaluated {} [stage [], stage [], build 1]
    let ahead := (later.step {} (callRuntime 0 1 [])).2.recipe
    let named := Session.evaluated {} [stage [], stage [("name", .text "0")], stage [], build 0]
    let beside := (named.step {} (callRuntime 2 0 [])).2.recipe
    (Reachable {} later ∧ (later.step {} (callRuntime 0 1 [])).1.isOk ∧
      (0, .copy (copy "1")) ∈ later.recipe.added ahead ∧ ahead.resolve? 0 "1" = none) ∧
    Reachable {} named ∧ (named.step {} (callRuntime 2 0 [])).1.isOk ∧
      (2, .copy (copy "0")) ∈ named.recipe.added beside ∧ beside.resolve? 2 "0" = some 1 := by
  intro stage build copy later ahead named beside
  have reachable : Reachable {} later := .evaluated {} [stage [], stage [], build 1]
  have reached : Reachable {} named :=
    .evaluated {} [stage [], stage [("name", .text "0")], stage [], build 0]
  refine ⟨⟨reachable, ?_, ?_, ?_⟩, reached, ?_, ?_, ?_⟩
  · decide +kernel
  · decide +kernel
  · decide +kernel
  · decide +kernel
  · decide +kernel
  · decide +kernel

end Script

end ContainerRecipe
