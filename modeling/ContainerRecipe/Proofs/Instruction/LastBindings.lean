import ContainerRecipe.Proofs.Instruction.Merged
import ContainerRecipe.Proofs.Instruction.Unions

namespace ContainerRecipe.Instruction

-- What the kinds of instructions bind that bind names.
def bindings? : Instruction → Option Bindings
  | .environment e => some e.bindings
  | .labels l => some l.bindings
  | .arguments a => some a.bindings
  | .baseImage _ | .shell _ | .copy _ | .comment _ | .verbatim _ | .workdir _ | .user _ | .runscript _
  | .fragment _ => none

def binding? (p : Instruction) (name : String) : Option String := p.bindings?.bind (·.get? name)

def exported : Instruction → Bool
  | .environment e => e.exported
  | _ => false

def ofKind (kind : String) (items : List Instruction) : List Instruction :=
  items.filter fun p => p.kind = kind

-- The instructions of a kind are what is picked for it.
theorem map_sift {kind : String} {pick : Instruction → Except Warning β} {wrap : β → Instruction}
    (picks : ∀ p, (pick p).toOption.map wrap = if p.kind = kind then some p else none)
    (items : List Instruction) : (sift pick items).value.map wrap = ofKind kind items := by
  unfold sift ofKind
  simp only [List.map_filterMap, picks]
  rw [← List.filterMap_eq_filter]
  refine List.filterMap_congr fun p _ => ?_
  simp [Option.guard]

-- What becomes of the instructions of a kind that binds names.
structure Gathers (kind : String) (items : List Instruction) (app : Option String) (merged : Instruction) :
    Prop where
  sameKind : merged.kind = kind
  forApp : merged.app = if kind = "arg" then none else app
  union : merged.bindings? = some (.unionAll ((ofKind kind items).filterMap bindings?))
  flag : merged.exported = (ofKind kind items).any exported

theorem gathers_of (wrap : β → Instruction) {first : Instruction} {kind : String}
    {pick : Instruction → Except Warning β} {build : List β → Option String → Instruction}
    {names : β → Bindings}
    (merges : MergesBy first pick build)
    (picks : ∀ p, (pick p).toOption.map wrap = if p.kind = kind then some p else none)
    (binds : ∀ b, (wrap b).bindings? = some (names b))
    (builds : ∀ all app, (build all app).kind = kind ∧
      (build all app).app = (if kind = "arg" then none else app) ∧
      (build all app).bindings? = some (.unionAll (all.map names)) ∧
      (build all app).exported = all.any fun b => (wrap b).exported)
    (rest : List Instruction) (app : Option String) :
    ∃ merged, (merge (first :: rest) app).result = .ok merged ∧ Gathers kind (first :: rest) app merged := by
  refine ⟨_, congrArg Outcome.result (merges.merge_eq rest app), ?_⟩
  obtain ⟨sameKind, forApp, union, flag⟩ := builds (sift pick (first :: rest)).value app
  refine ⟨sameKind, forApp, union.trans ?_, flag.trans ?_⟩
  · rw [← map_sift picks, List.filterMap_map, ← List.filterMap_eq_map]
    exact congrArg (fun f => some (Bindings.unionAll (List.filterMap f _))) (funext binds).symm
  · rw [← map_sift picks, List.any_map]
    rfl

theorem merge_gathers {first : Instruction} (names : first.kind ∈ ["environment", "label", "arg"])
    (rest : List Instruction) (app : Option String) :
    ∃ merged, (merge (first :: rest) app).result = .ok merged ∧
      Gathers first.kind (first :: rest) app merged := by
  cases first with
  | environment e =>
    refine gathers_of .environment (environment_mergesBy e) (fun p => ?_) (fun _ => rfl)
      (fun _ _ => ⟨rfl, rfl, rfl, rfl⟩) rest app
    cases p <;> simp [pickEnvironment, kind, Except.toOption]
  | labels l =>
    refine gathers_of .labels (labels_mergesBy l) (fun p => ?_) (fun _ => rfl)
      (fun all _ => ⟨rfl, rfl, rfl, ?_⟩) rest app
    · cases p <;> simp [pickLabels, kind, Except.toOption]
    · simp [exported]
  | arguments a =>
    refine gathers_of .arguments (arguments_mergesBy a) (fun p => ?_) (fun _ => rfl)
      (fun all _ => ⟨rfl, rfl, rfl, ?_⟩) rest app
    · cases p <;> simp [pickArguments, kind, Except.toOption]
    · simp [exported]
  | baseImage | shell | copy | comment | verbatim | workdir | user | runscript | fragment =>
    simp [kind] at names

-- Each name that an instruction of the kind binds is bound, as the last of these binds it.
structure Inherits (kind : String) (items : List Instruction) (merged : Instruction) : Prop where
  sameKind : merged.kind = kind
  binds : ∀ name, (∃ value, merged.binding? name = some value) ↔
    ∃ p ∈ items, p.kind = kind ∧ ∃ value, p.binding? name = some value
  last : ∀ name value, merged.binding? name = some value ↔
    ∃ before p after, items = before ++ p :: after ∧ p.kind = kind ∧ p.binding? name = some value ∧
      ∀ q ∈ after, q.kind = kind → q.binding? name = none
  exports : merged.exported = true ↔ ∃ p ∈ items, p.kind = kind ∧ p.exported = true

-- Instructions that bind a name to the same value where both of them bind it.
def Agrees (p q : Instruction) : Prop :=
  ∀ name v w, p.binding? name = some v → q.binding? name = some w → v = w

section

variable {kind : String} {app : Option String} {items others : List Instruction} {merged : Instruction}

theorem Gathers.binding?_eq (gathers : Gathers kind items app merged) (name : String) :
    merged.binding? name =
      (items.filterMap fun p => if p.kind = kind then p.binding? name else none).getLast? := by
  rw [binding?, gathers.union, Option.bind_some, Bindings.get?_unionAll, List.filterMap_filterMap, ofKind,
    List.filterMap_filter]
  simp [binding?]

theorem Gathers.inherits (gathers : Gathers kind items app merged) : Inherits kind items merged where
  sameKind := gathers.sameKind
  binds := by
    intro name
    rw [gathers.binding?_eq, ← Option.isSome_iff_exists, List.getLast?_isSome]
    simp [Option.ne_none_iff_exists']
  last := by
    intro name value
    rw [gathers.binding?_eq, getLast?_filterMap_eq_some_iff]
    simp [and_assoc]
  exports := by
    rw [gathers.flag]
    simp [ofKind]

-- An instruction that binds names is told by its kind, its application, what it binds and whether it
-- exports that.
theorem eq_of_told {p q : Instruction} {b : Bindings} (sameKind : p.kind = q.kind) (sameApp : p.app = q.app)
    (left : p.bindings? = some b) (right : q.bindings? = some b) (sameFlag : p.exported = q.exported) :
    p = q := by
  have same : p.bindings? = q.bindings? := left.trans right.symm
  cases p with
  | environment e =>
    cases q with
    | environment f =>
      cases e
      cases f
      simp only [bindings?, Option.some.injEq, Instruction.app, exported] at same sameApp sameFlag
      rw [same, sameApp, sameFlag]
    | _ => simp [Instruction.kind] at sameKind
  | labels l =>
    cases q with
    | labels m =>
      cases l
      cases m
      simp only [bindings?, Option.some.injEq, Instruction.app] at same sameApp
      rw [same, sameApp]
    | _ => simp [Instruction.kind] at sameKind
  | arguments a =>
    cases q with
    | arguments b =>
      cases a
      cases b
      simp only [bindings?, Option.some.injEq] at same
      rw [same]
    | _ => simp [Instruction.kind] at sameKind
  | baseImage | shell | copy | comment | verbatim | workdir | user | runscript | fragment => cases left

theorem agree_of_agrees (kind : String) (agree : ∀ p ∈ items, ∀ q ∈ items, p.Agrees q) :
    ∀ a ∈ (ofKind kind items).filterMap bindings?, ∀ b ∈ (ofKind kind items).filterMap bindings?,
      a.Agree b := by
  intro a first b second name v w left right
  obtain ⟨p, member, given⟩ := List.mem_filterMap.mp first
  obtain ⟨q, memberToo, givenToo⟩ := List.mem_filterMap.mp second
  refine agree p (List.mem_of_mem_filter member) q (List.mem_of_mem_filter memberToo) name v w ?_ ?_
  · rw [binding?, given, Option.bind_some, left]
  · rw [binding?, givenToo, Option.bind_some, right]

theorem Gathers.perm (gathers : Gathers kind items app merged) {other : Instruction}
    (again : Gathers kind others app other) (agree : ∀ p ∈ items, ∀ q ∈ items, p.Agrees q)
    (same : items.Perm others) : other = merged := by
  have members : (ofKind kind items).Perm (ofKind kind others) := same.filter _
  have union := Bindings.unionAll_perm (agree_of_agrees kind agree) (members.filterMap bindings?)
  have flag : (ofKind kind others).any exported = (ofKind kind items).any exported := by
    rw [Bool.eq_iff_iff, List.any_eq_true, List.any_eq_true]
    simp only [members.mem_iff]
  refine eq_of_told (again.sameKind.trans gathers.sameKind.symm) (again.forApp.trans gathers.forApp.symm)
    again.union (gathers.union.trans (congrArg some union)) ?_
  rw [again.flag, gathers.flag, flag]

end

-- What is bound by the instruction that a list is merged to, and when the order of the list has no say.
theorem merge_last_bindings {items : List Instruction} {first : Instruction}
    (starts : items.head? = some first) (names : first.kind ∈ ["environment", "label", "arg"])
    (app : Option String) :
    (∃ merged, (merge items app).result = .ok merged ∧ Inherits first.kind items merged) ∧
      ((∀ p ∈ items, p.kind = first.kind) → (∀ p ∈ items, ∀ q ∈ items, p.Agrees q) →
        ∀ others, items.Perm others → (merge others app).result = (merge items app).result) := by
  obtain ⟨rest, rfl⟩ := List.head?_eq_some_iff.mp starts
  obtain ⟨merged, accepted, gathers⟩ := merge_gathers names rest app
  refine ⟨⟨merged, accepted, gathers.inherits⟩, fun kinds agree others same => ?_⟩
  cases others with
  | nil => exact absurd same.eq_nil (List.cons_ne_nil _ _)
  | cons other more =>
    have sameKind : other.kind = first.kind := kinds other (same.mem_iff.mpr List.mem_cons_self)
    obtain ⟨again, acceptedToo, gathersToo⟩ := merge_gathers (sameKind ▸ names) more app
    rw [sameKind] at gathersToo
    rw [accepted, acceptedToo, gathers.perm gathersToo agree same]

-- Environments with labels in between, and two environments that agree and change places.
theorem merge_last_bindings_exported :
    let environment (pairs : List (String × String)) (exported : Bool) : Instruction :=
      .environment { bindings := .ofList pairs, exported }
    let mixed := [environment [("A", "1"), ("B", "1")] true, .labels { bindings := .ofList [("A", "9")] },
      environment [("A", "2")] false]
    let one := environment [("A", "1")] false
    let two := environment [("A", "1"), ("B", "2")] true
    (∃ merged, (merge mixed none).result = .ok merged ∧ merged.binding? "A" = some "2" ∧
      merged.binding? "B" = some "1" ∧ merged.exported = true) ∧
      (merge [two, one] none).result = (merge [one, two] none).result := by
  intro environment mixed one two
  obtain ⟨⟨merged, accepted, inherits⟩, -⟩ := @merge_last_bindings mixed _ rfl (by decide) none
  obtain ⟨-, ordered⟩ := @merge_last_bindings [one, two] _ rfl (by decide) none
  refine ⟨⟨merged, accepted, ?_, ?_, ?_⟩, ?_⟩
  · exact (inherits.last "A" "2").mpr ⟨mixed.take 2, mixed[2], [], rfl, rfl, by decide +kernel, by simp⟩
  · refine (inherits.last "B" "1").mpr ⟨[], mixed[0], mixed.drop 1, rfl, rfl, by decide +kernel, ?_⟩
    decide +kernel
  · exact inherits.exports.mpr ⟨mixed[0], List.mem_cons_self, rfl, rfl⟩
  · refine ordered (by simp [one, two, environment, kind]) ?_ [two, one] (List.Perm.swap two one [])
    have told : ∀ name, one.binding? name = if name = "A" then some "1" else none := by
      simp [one, environment, binding?, bindings?, Bindings.ofList, Bindings.insertAll]
    have toldToo : ∀ name, two.binding? name =
        if name = "B" then some "2" else if name = "A" then some "1" else none := by
      simp [two, environment, binding?, bindings?, Bindings.ofList, Bindings.insertAll]
    simp only [List.mem_cons, List.not_mem_nil, or_false, Agrees]
    rintro p (rfl | rfl) q (rfl | rfl) name v w left right <;> grind

end ContainerRecipe.Instruction
