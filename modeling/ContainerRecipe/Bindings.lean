namespace ContainerRecipe

def insertEntry (name value : String) : List (String × String) → List (String × String)
  | [] => [(name, value)]
  | entry :: rest =>
    if name < entry.1 then (name, value) :: entry :: rest
    else if name = entry.1 then (name, value) :: rest
    else entry :: insertEntry name value rest

theorem mem_insertEntry {entry : String × String} :
    entry ∈ insertEntry name value entries → entry = (name, value) ∨ entry ∈ entries := by
  induction entries with
  | nil => simp [insertEntry]
  | cons first rest ih =>
    simp only [insertEntry]
    split
    · simp
    · split
      · intro found
        rcases List.mem_cons.mp found with rfl | old
        · exact .inl rfl
        · exact .inr (List.mem_cons_of_mem _ old)
      · intro found
        rcases List.mem_cons.mp found with rfl | later
        · exact .inr List.mem_cons_self
        · exact (ih later).imp id (List.mem_cons_of_mem _)

theorem insertEntry_ordered {entries : List (String × String)}
    (ordered : entries.Pairwise fun a b => a.1 < b.1) :
    (insertEntry name value entries).Pairwise fun a b => a.1 < b.1 := by
  induction entries with
  | nil => simp [insertEntry]
  | cons first rest ih =>
    obtain ⟨after, tail⟩ := List.pairwise_cons.mp ordered
    simp only [insertEntry]
    split
    · rename_i before
      refine List.pairwise_cons.mpr ⟨fun entry found => ?_, ordered⟩
      rcases List.mem_cons.mp found with rfl | later
      · exact before
      · exact String.lt_trans before (after _ later)
    · split
      · rename_i same
        exact List.pairwise_cons.mpr ⟨fun entry found => same ▸ after _ found, tail⟩
      · rename_i notBefore notSame
        refine List.pairwise_cons.mpr ⟨fun entry found => ?_, ih tail⟩
        rcases mem_insertEntry found with rfl | later
        · exact Std.lt_of_le_of_ne (String.not_lt.mp notBefore) (Ne.symm notSame)
        · exact after _ later

-- Names bound to texts, each name once and in ascending order.
structure Bindings where
  entries : List (String × String) := []
  ordered : entries.Pairwise fun a b => a.1 < b.1 := by simp
  deriving DecidableEq

namespace Bindings

instance : EmptyCollection Bindings := ⟨{}⟩
instance : Inhabited Bindings := ⟨∅⟩
instance : Repr Bindings := ⟨fun b => reprPrec b.entries⟩

@[ext] theorem ext {a b : Bindings} (same : a.entries = b.entries) : a = b := by
  cases a
  cases b
  cases same
  rfl

def insert (b : Bindings) (name value : String) : Bindings :=
  ⟨insertEntry name value b.entries, insertEntry_ordered b.ordered⟩

def insertAll (b : Bindings) (entries : List (String × String)) : Bindings :=
  entries.foldl (fun b entry => b.insert entry.1 entry.2) b

def ofList (entries : List (String × String)) : Bindings := insertAll ∅ entries

def union (a b : Bindings) : Bindings := a.insertAll b.entries

def get? (b : Bindings) (name : String) : Option String := b.entries.lookup name

def isEmpty (b : Bindings) : Bool := b.entries.isEmpty

def assignments (b : Bindings) : List String := b.entries.map fun (name, value) => name ++ "=" ++ value

@[simp] theorem entries_empty : (∅ : Bindings).entries = [] := rfl
@[simp] theorem entries_insert (b : Bindings) (name value : String) :
    (b.insert name value).entries = insertEntry name value b.entries := rfl

end Bindings

end ContainerRecipe
