import ContainerRecipe.Toolchain

namespace ContainerRecipe.Toolchain

-- Writing a variable and reading one go by the same table, whichever two variables they are.
theorem get?_put_eq (t : Toolchain) (v w : ToolVariable) (value : Option String) :
    (t.put v value).get? w = if w = v then value else t.get? w := by
  cases v <;> cases w <;> rfl

theorem get?_put (t : Toolchain) (v : ToolVariable) (value : Option String) : (t.put v value).get? v = value :=
  (get?_put_eq t v v value).trans (if_pos rfl)

theorem get?_put_of_ne (t : Toolchain) (value : Option String) (other : w ≠ v) : (t.put v value).get? w = t.get? w :=
  (get?_put_eq t v w value).trans (if_neg other)

theorem get?_set (t : Toolchain) (v w : ToolVariable) (value : String) :
    (t.set v value).get? w = if w = v then some value else t.get? w :=
  get?_put_eq t v w (some value)

-- Every slot is one that some variable reads.
theorem eq_of_get? {a b : Toolchain} (same : ∀ v, a.get? v = b.get? v) : a = b :=
  Toolchain.ext (same .cc) (same .cflags) (same .cppflags) (same .cudaHome) (same .cxx) (same .cxxflags) (same .f77)
    (same .f90) (same .fc) (same .fcflags) (same .fflags) (same .flibs) (same .ldLibraryPath) (same .ldflags)
    (same .libs)

theorem get?_empty (v : ToolVariable) : (∅ : Toolchain).get? v = none := by cases v <;> rfl

theorem clashes_iff {a b : Toolchain} {v : ToolVariable} :
    a.clashes b v = true ↔ ∃ x y, a.get? v = some x ∧ b.get? v = some y ∧ x ≠ y := by
  unfold clashes
  cases a.get? v <;> cases b.get? v <;> simp

section

variable (a b next defaults : Toolchain) (v w : ToolVariable)

theorem get?_takeOver : (takeOver a b next v).value.get? w =
    if w = v then (b.get? v).or (next.get? v) else next.get? w := by
  unfold takeOver
  cases set : b.get? v with
  | none => by_cases same : w = v <;> simp [same]
  | some value => cases a.clashes b v <;> exact get?_set next v w value

theorem warnings_takeOver : (takeOver a b next v).warnings =
    if a.clashes b v then [.variableOverwritten v.text] else [] := by
  unfold takeOver
  cases set : b.get? v with
  | none => simp [clashes, set]
  | some value => cases a.clashes b v <;> rfl

theorem get?_fill : (fill defaults next v).get? w =
    if w = v then (next.get? v).or (defaults.get? v) else next.get? w := by
  unfold fill
  cases held : next.get? v with
  | some value => by_cases same : w = v <;> simp [same, held]
  | none =>
    cases set : defaults.get? v with
    | none => by_cases same : w = v <;> simp [same, held]
    | some value => exact get?_set next v w value

end

section

variable (a b next defaults : Toolchain) (vs : List ToolVariable) (w : ToolVariable)

-- Variables that were passed keep what they were given, as `b` goes on to set them in the same way.
theorem get?_foldlM_takeOver : (vs.foldlM (takeOver a b) next).value.get? w =
    if w ∈ vs then (b.get? w).or (next.get? w) else next.get? w := by
  induction vs generalizing next with
  | nil => rfl
  | cons v rest ih =>
    rw [List.foldlM_cons, Logged.value_bind, ih, get?_takeOver]
    by_cases here : w = v
    · subst here
      cases b.get? w <;> simp
    · simp [here]

-- What is told depends on the two toolchains alone, not on how far the run has come.
theorem warnings_foldlM_takeOver : (vs.foldlM (takeOver a b) next).warnings =
    (vs.filter (a.clashes b)).map (.variableOverwritten ·.text) := by
  induction vs generalizing next with
  | nil => rfl
  | cons v rest ih =>
    rw [List.foldlM_cons, Logged.warnings_bind, ih, warnings_takeOver, List.filter_cons]
    cases a.clashes b v <;> rfl

theorem get?_foldl_fill : (vs.foldl (fill defaults) next).get? w =
    if w ∈ vs then (next.get? w).or (defaults.get? w) else next.get? w := by
  induction vs generalizing next with
  | nil => rfl
  | cons v rest ih =>
    rw [List.foldl_cons, ih, get?_fill]
    by_cases here : w = v
    · subst here
      cases next.get? w <;> simp
    · simp [here]

end

section

variable (a b c : Toolchain) (v : ToolVariable)

theorem get?_overlay : (a.overlay b).value.get? v = (b.get? v).or (a.get? v) :=
  (get?_foldlM_takeOver a b a _ v).trans (if_pos v.mem_all)

theorem get?_fillUnset : (a.fillUnset b).get? v = (a.get? v).or (b.get? v) :=
  (get?_foldl_fill a b _ v).trans (if_pos v.mem_all)

theorem warnings_overlay : (a.overlay b).warnings =
    (ToolVariable.all.filter (a.clashes b)).map (.variableOverwritten ·.text) :=
  warnings_foldlM_takeOver a b a _

theorem overlay_assoc : ((a.overlay b).value.overlay c).value = (a.overlay (b.overlay c).value).value :=
  eq_of_get? fun v => by simp only [get?_overlay, Option.or_assoc]

theorem overlay_self : (a.overlay a).value = a :=
  eq_of_get? fun v => by rw [get?_overlay, Option.or_self]

theorem overlay_empty : (a.overlay ∅).value = a :=
  eq_of_get? fun v => by rw [get?_overlay, get?_empty, Option.none_or]

theorem empty_overlay : ((∅ : Toolchain).overlay a).value = a :=
  eq_of_get? fun v => by rw [get?_overlay, get?_empty, Option.or_none]

theorem fillUnset_eq_overlay : a.fillUnset b = (b.overlay a).value :=
  eq_of_get? fun v => by rw [get?_fillUnset, get?_overlay]

-- One toolchain over another has what it sets and what the other one sets besides, and one warning for each
-- variable that both set and not to the same text, in the order of the variables, none of which comes twice.
-- Filling up is the same from the other side, and gives a toolchain alone: it has no warnings to give.
theorem overlay_algebra (a b c : Toolchain) (v : ToolVariable) (x : String) :
    (∀ w, (a.overlay b).value.get? w = (b.get? w).or (a.get? w)) ∧
      ((a.overlay b).value.overlay c).value = (a.overlay (b.overlay c).value).value ∧
      (a.overlay a).value = a ∧ ((∅ : Toolchain).overlay a).value = a ∧ (a.overlay ∅).value = a ∧
      a.fillUnset b = (b.overlay a).value ∧
      (∀ w, (a.set v x).get? w = if w = v then some x else a.get? w) ∧
      ∃ vs : List ToolVariable, (a.overlay b).warnings = vs.map (.variableOverwritten ·.text) ∧
        vs.Sublist ToolVariable.all ∧ vs.Nodup ∧
        ∀ w, w ∈ vs ↔ ∃ y z, a.get? w = some y ∧ b.get? w = some z ∧ y ≠ z := by
  have once : ToolVariable.all.Nodup := by decide
  refine ⟨get?_overlay a b, overlay_assoc a b c, overlay_self a, empty_overlay a, overlay_empty a,
    fillUnset_eq_overlay a b, fun w => get?_set a v w x, _, warnings_overlay a b, List.filter_sublist,
    once.filter _, fun w => ?_⟩
  rw [List.mem_filter, clashes_iff]
  exact and_iff_right w.mem_all

end

end ContainerRecipe.Toolchain
