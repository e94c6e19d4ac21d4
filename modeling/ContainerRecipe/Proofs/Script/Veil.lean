import ContainerRecipe.Proofs.Formats
import ContainerRecipe.Script.Run

namespace ContainerRecipe.Script

def formatKey : Key := .ofText "format"

-- What is seen of a value under a key through the veil.
def Value.veiled (k : Key) (v : Value) : Value := if k = formatKey ∧ v.isNil = false then .flag true else v

@[simp] theorem Value.isNil_veiled (k : Key) (v : Value) : (v.veiled k).isNil = v.isNil := by
  unfold veiled
  split
  · rename_i hidden
    rw [hidden.2]
    rfl
  · rfl

theorem Value.veiled_of_ne (v : Value) (other : k ≠ formatKey) : v.veiled k = v := by
  unfold veiled
  rw [if_neg fun hidden => other hidden.1]

@[simp] theorem Value.veiled_nil (k : Key) : Value.nil.veiled k = .nil := by
  unfold veiled
  rw [if_neg fun hidden => nomatch hidden.2]

theorem ofPlace_ne_formatKey (n : Nat) : Key.ofPlace n ≠ formatKey := nofun

namespace Table

def veiledPair (pair : Key × Value) : Key × Value := (pair.1, pair.2.veiled pair.1)

def veiled (t : Table) : Table := { t with entries := t.entries.map veiledPair }

theorem lookup_veiled (entries : List (Key × Value)) (k : Key) :
    (entries.map veiledPair).lookup k = (entries.lookup k).map (Value.veiled k) := by
  induction entries with
  | nil => rfl
  | cons pair rest ih =>
    obtain ⟨l, v⟩ := pair
    simp only [List.map_cons, veiledPair, List.lookup_cons]
    cases same : k == l with
    | true =>
      rw [beq_iff_eq.mp same]
      rfl
    | false => exact ih

theorem place?_veiled (t : Table) (k : Key) : t.veiled.place? k = t.place? k := rfl

-- Only numbers have a place.
theorem ne_formatKey_of_place {t : Table} (placed : t.place? k = some place) : k ≠ formatKey := by
  rintro rfl
  cases placed

theorem get_veiled (t : Table) (k : Key) : t.veiled.get k = (t.get k).veiled k := by
  unfold get
  rw [place?_veiled]
  cases placed : t.place? k with
  | some place => exact (Value.veiled_of_ne _ (ne_formatKey_of_place placed)).symm
  | none =>
    dsimp only [veiled]
    rw [lookup_veiled]
    cases t.entries.lookup k with
    | none => exact (Value.veiled_nil k).symm
    | some v => rfl

section

theorem holds_veiled (t : Table) (n : Nat) : t.veiled.holds n = t.holds n := by
  unfold holds
  rw [get_veiled, Value.isNil_veiled]

theorem halve_veiled (t : Table) (bound low high : Nat) :
    t.veiled.halve bound low high = t.halve bound low high := by
  induction bound generalizing low high with
  | zero => rfl
  | succ bound ih => simp only [halve, holds_veiled, ih]

theorem lastBeyond_veiled (t : Table) (bound n : Nat) :
    t.veiled.lastBeyond bound n = t.lastBeyond bound n := by
  induction bound generalizing n with
  | zero => rfl
  | succ bound ih => simp only [lastBeyond, holds_veiled, ih, lastBetween, halve_veiled]

theorem length_veiled (t : Table) : t.veiled.length = t.length := by
  have entries : t.veiled.entries.length = t.entries.length := List.length_map _
  have places : t.veiled.places = t.places := rfl
  simp only [length, holds_veiled, lastBeyond_veiled, lastBetween, halve_veiled, entries, places]

theorem itemsFrom_veiled (t : Table) (bound n : Nat) : t.veiled.itemsFrom bound n = t.itemsFrom bound n := by
  induction bound generalizing n with
  | zero => rfl
  | succ bound ih =>
    simp only [itemsFrom, holds_veiled, get_veiled, Value.veiled_of_ne _ (ofPlace_ne_formatKey n), ih]

theorem itemsToGap_veiled (t : Table) : t.veiled.itemsToGap = t.itemsToGap := by
  have entries : t.veiled.entries.length = t.entries.length := List.length_map _
  unfold itemsToGap
  rw [itemsFrom_veiled, entries]
  rfl

end

section

theorem pairs_veiled (t : Table) : t.veiled.pairs = t.pairs.map veiledPair := by
  have numbered : ((t.places.zipIdx 1).map fun place => (Key.ofPlace place.2, place.1)).map veiledPair =
      (t.places.zipIdx 1).map fun place => (Key.ofPlace place.2, place.1) := by
    rw [List.map_map]
    refine List.map_congr_left fun place _ => ?_
    exact congrArg (Prod.mk _) (Value.veiled_of_ne place.1 (ofPlace_ne_formatKey place.2))
  have there : (fun pair : Key × Value => !pair.2.isNil) ∘ veiledPair = fun pair => !pair.2.isNil :=
    funext fun pair => congrArg not (Value.isNil_veiled pair.1 pair.2)
  unfold pairs
  rw [← there, ← List.filter_map, List.map_append, numbered, there]
  rfl

theorem positiveKeys_veiled (entries : List (Key × Value)) :
    positiveKeys (entries.map veiledPair) = positiveKeys entries := List.filterMap_map ..

theorem settled_veiled (entries : List (Key × Value)) :
    settled (entries.map veiledPair) = (settled entries).veiled := by
  have placed (n : Nat) : ((entries.map veiledPair).lookup (.ofPlace n)).getD .nil =
      (entries.lookup (.ofPlace n)).getD .nil := by
    rw [lookup_veiled]
    cases entries.lookup (.ofPlace n) with
    | none => rfl
    | some v => exact Value.veiled_of_ne v (ofPlace_ne_formatKey n)
  unfold settled veiled
  simp only [positiveKeys_veiled, placed, List.filter_map, List.length_map]
  rfl

theorem put_veiled (t : Table) (k : Key) (v : Value) : (t.put k v).veiled = t.veiled.put k (v.veiled k) := by
  unfold put
  rw [place?_veiled]
  cases placed : t.place? k with
  | some place =>
    rw [Value.veiled_of_ne v (ne_formatKey_of_place placed)]
    rfl
  | none =>
    have known : (t.veiled.entries.lookup k).isSome = (t.entries.lookup k).isSome := by
      dsimp only [veiled]
      rw [lookup_veiled, Option.isSome_map]
    have count : t.veiled.entries.length = t.entries.length := List.length_map _
    have changed : (t.entries.map fun pair => (pair.1, if pair.1 = k then v else pair.2)).map veiledPair =
        (t.entries.map veiledPair).map fun pair => (pair.1, if pair.1 = k then v.veiled k else pair.2) := by
      rw [List.map_map, List.map_map]
      refine List.map_congr_left fun pair _ => ?_
      show (pair.1, (if pair.1 = k then v else pair.2).veiled pair.1) =
        (pair.1, if pair.1 = k then v.veiled k else pair.2.veiled pair.1)
      by_cases same : pair.1 = k
      · rw [if_pos same, if_pos same, same]
      · rw [if_neg same, if_neg same]
    have added (entries : List (Key × Value)) :
        (entries ++ [(k, v)]).map veiledPair = entries.map veiledPair ++ [(k, v.veiled k)] := List.map_append
    dsimp only
    rw [known, Value.isNil_veiled, count, show t.veiled.room = t.room from rfl]
    split
    · exact congrArg (fun entries => { t with entries }) changed
    · split
      · rfl
      · split
        · exact congrArg (fun entries => { t with entries }) (added t.entries)
        · rw [← settled_veiled, pairs_veiled, added]

theorem putFields_veiled (t : Table) (fields : List (String × Value)) : (t.putFields fields).veiled =
    t.veiled.putFields (fields.map fun (name, v) => (name, v.veiled (.ofText name))) := by
  unfold putFields
  induction fields generalizing t with
  | nil => rfl
  | cons field rest ih =>
    obtain ⟨name, v⟩ := field
    rw [List.foldl_cons, ih, put_veiled]
    rfl

end

end Table

-- The table of a recipe looks the same behind the veil in all formats.
theorem recipeTable_veiled (o : Options) (f : Format) :
    (Session.recipeTable (o.inFormat f)).veiled = (Session.recipeTable o).veiled := by
  unfold Session.recipeTable Table.ofFields Table.ofParts
  rw [Table.putFields_veiled, Table.putFields_veiled]
  have hidden (g : Format) : (Value.text g.text).veiled (.ofText "format") = .flag true := rfl
  simp only [List.map_cons, hidden]
  rfl

end ContainerRecipe.Script
