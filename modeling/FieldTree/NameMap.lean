/-
# Maps from names

A finite map from names to values, kept in ascending order of the names. The main
statement says what is found after an insertion.
-/

namespace FieldTree

/-- Values under names, in ascending order of the names. -/
structure NameMap (α : Type) where
  entries : List (String × α)
  sorted : entries.Pairwise (·.1 < ·.1)

namespace NameMap

variable {α : Type}

/-- No names at all. -/
def empty : NameMap α := ⟨[], List.Pairwise.nil⟩

/-! ## Insertion -/

/-- Puts a value under a name into sorted entries, in place of one that is there. -/
def put (name : String) (value : α) : List (String × α) → List (String × α)
  | [] => [(name, value)]
  | entry :: rest =>
    if name < entry.1 then (name, value) :: entry :: rest
    else if name = entry.1 then (name, value) :: rest
    else entry :: put name value rest

/-- The names after putting are the new name and those before. -/
theorem mem_names_put {name other : String} {value : α} {entries : List (String × α)} :
    other ∈ (put name value entries).map Prod.fst ↔
      other = name ∨ other ∈ entries.map Prod.fst := by
  induction entries with
  | nil => simp [put]
  | cons entry rest ih =>
    unfold put
    split
    · simp
    · split
      · rename_i h; simp [h]
      · simp only [List.map_cons, List.mem_cons, ih]
        constructor <;> rintro (h | h | h) <;> simp [h]

theorem sorted_put (name : String) (value : α) {entries : List (String × α)}
    (h : entries.Pairwise (·.1 < ·.1)) : (put name value entries).Pairwise (·.1 < ·.1) := by
  induction entries with
  | nil => simp [put]
  | cons entry rest ih =>
    obtain ⟨hentry, hrest⟩ := List.pairwise_cons.1 h
    unfold put
    split
    · rename_i hlt
      refine List.pairwise_cons.2 ⟨fun other ho => ?_, h⟩
      rcases List.mem_cons.1 ho with rfl | ho
      · exact hlt
      · exact String.lt_trans hlt (hentry other ho)
    · split
      · rename_i heq
        exact List.pairwise_cons.2 ⟨fun other ho => heq ▸ hentry other ho, hrest⟩
      · rename_i hge hne
        have hlt : entry.1 < name := by
          have := String.not_lt.1 hge
          grind
        refine List.pairwise_cons.2 ⟨fun other ho => ?_, ih hrest⟩
        have := mem_names_put.1 (List.mem_map_of_mem (f := Prod.fst) ho)
        rcases this with h | h
        · exact h ▸ hlt
        · obtain ⟨found, hf, he⟩ := List.mem_map.1 h
          exact he ▸ hentry found hf

/-- The map with a value under a name, in place of one that is there. -/
def insert (m : NameMap α) (name : String) (value : α) : NameMap α :=
  ⟨put name value m.entries, sorted_put name value m.sorted⟩

/-- The map of some entries; of several under one name the last counts. -/
def ofList (entries : List (String × α)) : NameMap α :=
  entries.foldl (fun m entry => m.insert entry.1 entry.2) empty

/-! ## Reading -/

/-- The value under a name. -/
def find? (m : NameMap α) (name : String) : Option α :=
  (m.entries.find? (·.1 == name)).map Prod.snd

/-- The names, ascending. -/
def names (m : NameMap α) : List String := m.entries.map Prod.fst

/-! ## Facts about one operation -/

theorem find?_put (name other : String) (value : α) (entries : List (String × α)) :
    (put name value entries).find? (·.1 == other)
      = if name = other then some (name, value) else entries.find? (·.1 == other) := by
  induction entries with
  | nil => by_cases h : name = other <;> simp [put, h]
  | cons entry rest ih =>
    unfold put
    by_cases h : name = other
    · subst h
      split
      · simp
      · split
        · simp
        · rename_i hne
          have : ¬ entry.1 = name := fun e => hne e.symm
          simp [ih, this]
    · split
      · simp [h]
      · split
        · rename_i heq
          have : ¬ entry.1 = other := heq ▸ h
          simp [h, this]
        · by_cases he : entry.1 = other
          · simp [he]
          · simp [ih, he, h]

/-- After an insertion the new value is found under its name, and every other name finds what
it found before. -/
theorem find?_insert (m : NameMap α) (name other : String) (value : α) :
    (m.insert name value).find? other
      = if name = other then some value else m.find? other := by
  simp only [find?, insert, find?_put]
  split <;> simp

theorem find?_eq_none {m : NameMap α} {name : String} :
    m.find? name = none ↔ name ∉ m.names := by
  simp only [find?, names, Option.map_eq_none_iff, List.find?_eq_none, beq_iff_eq, List.mem_map]
  constructor
  · rintro h ⟨entry, he, rfl⟩
    exact h entry he rfl
  · intro h entry he hn
    exact h ⟨entry, he, hn⟩

end NameMap

end FieldTree
