/-!
# Name maps

Finite maps from names to values that keep the order in which the names arrived. They hold the
bindings of a scope, the fields of an object and the method tables of a class.
-/

namespace LoxLang

/-- A finite map from names, in order of arrival. -/
structure NameMap (α : Type) where
  entries : List (String × α) := []

namespace NameMap

variable {α β : Type}

def empty : NameMap α := ⟨[]⟩

instance : EmptyCollection (NameMap α) := ⟨empty⟩

instance : Inhabited (NameMap α) := ⟨empty⟩

/-- The value of the first entry for `name`. -/
def findIn (name : String) : List (String × α) → Option α
  | [] => none
  | (key, value) :: rest => if key = name then some value else findIn name rest

/-- Replace the entry for `name` where it stands, or append one. -/
def insertIn (name : String) (value : α) : List (String × α) → List (String × α)
  | [] => [(name, value)]
  | (key, old) :: rest =>
    if key = name then (key, value) :: rest else (key, old) :: insertIn name value rest

def find? (map : NameMap α) (name : String) : Option α :=
  findIn name map.entries

def contains (map : NameMap α) (name : String) : Bool :=
  (map.find? name).isSome

/-- Give `name` the value; a name already present keeps its place. -/
def insert (map : NameMap α) (name : String) (value : α) : NameMap α :=
  ⟨insertIn name value map.entries⟩

/-- Change the value of `name`, if it is present. -/
def modify (map : NameMap α) (name : String) (change : α → α) : NameMap α :=
  match map.find? name with
  | some value => map.insert name (change value)
  | none => map

def keys (map : NameMap α) : List String :=
  map.entries.map (·.1)

/-- Keep the entries whose name passes the test. -/
def retain (map : NameMap α) (keep : String → Bool) : NameMap α :=
  ⟨map.entries.filter fun entry => keep entry.1⟩

/-- Enter the pairs from left to right, so that the last of two equal names wins. -/
def ofList (pairs : List (String × α)) : NameMap α :=
  pairs.foldl (fun map pair => map.insert pair.1 pair.2) empty

/-! ## Look-up after each operation -/

@[simp] theorem find?_empty (name : String) : (empty : NameMap α).find? name = none := rfl

theorem findIn_insertIn (name other : String) (value : α) (entries : List (String × α)) :
    findIn other (insertIn name value entries) =
      if name = other then some value else findIn other entries := by
  induction entries with
  | nil => simp [insertIn, findIn]
  | cons entry rest ih =>
    obtain ⟨key, old⟩ := entry
    by_cases hkey : key = name
    · by_cases hother : name = other <;> simp_all [insertIn, findIn]
    · by_cases hother : key = other
      · have : name ≠ other := fun h => hkey (hother.trans h.symm)
        simp_all [insertIn, findIn]
      · simp [insertIn, findIn, hkey, hother, ih]

theorem find?_insert (map : NameMap α) (name other : String) (value : α) :
    (map.insert name value).find? other =
      if name = other then some value else map.find? other :=
  findIn_insertIn name other value map.entries

@[simp] theorem find?_insert_self (map : NameMap α) (name : String) (value : α) :
    (map.insert name value).find? name = some value := by
  simp [find?_insert]

theorem find?_insert_of_ne (map : NameMap α) {name other : String} (value : α)
    (h : name ≠ other) : (map.insert name value).find? other = map.find? other := by
  simp [find?_insert, h]

theorem find?_modify (map : NameMap α) (name other : String) (change : α → α) :
    (map.modify name change).find? other =
      if name = other then (map.find? other).map change else map.find? other := by
  unfold modify
  by_cases h : name = other
  · subst h
    cases hfind : map.find? name <;> simp [hfind]
  · cases hfind : map.find? name <;> simp [h, find?_insert_of_ne]

theorem find?_retain (map : NameMap α) (keep : String → Bool) (name : String) :
    (map.retain keep).find? name = if keep name then map.find? name else none := by
  obtain ⟨entries⟩ := map
  show findIn name (entries.filter fun entry => keep entry.1) = _
  induction entries with
  | nil => simp [find?, findIn]
  | cons entry rest ih =>
    obtain ⟨key, value⟩ := entry
    by_cases hkey : key = name
    · subst hkey
      by_cases hkeep : keep key
      · simp [List.filter, hkeep, find?, findIn]
      · simp only [List.filter, hkeep]
        simpa [hkeep] using ih
    · by_cases hkeep : keep key
      · simp only [List.filter, hkeep, findIn, hkey, if_false, find?] at ih ⊢
        simpa [hkey] using ih
      · simp only [List.filter, hkeep, find?, findIn, hkey, if_false] at ih ⊢
        simpa [hkey] using ih

/-- What is found was entered under its name. -/
theorem mem_of_find?_ofList {pairs : List (String × α)} {name : String} {value : α}
    (h : (ofList pairs).find? name = some value) : (name, value) ∈ pairs := by
  suffices hmap : ∀ map : NameMap α,
      (pairs.foldl (fun map pair => map.insert pair.1 pair.2) map).find? name = some value →
        (name, value) ∈ pairs ∨ map.find? name = some value from
    (hmap _ h).elim id fun hempty => by cases hempty
  clear h
  induction pairs with
  | nil => exact fun map h => .inr h
  | cons pair rest ih =>
    intro map h
    rcases ih _ h with hmem | hinsert
    · exact .inl (List.mem_cons_of_mem _ hmem)
    · rw [find?_insert] at hinsert
      split at hinsert
      · next heq =>
        cases hinsert
        exact .inl (heq ▸ List.mem_cons_self)
      · exact .inr hinsert

/-! ## The names of a map -/

theorem mem_keys {map : NameMap α} {name : String} :
    name ∈ map.keys ↔ (map.find? name).isSome = true := by
  obtain ⟨entries⟩ := map
  show name ∈ entries.map (·.1) ↔ (findIn name entries).isSome = true
  induction entries with
  | nil => simp [findIn]
  | cons entry rest ih =>
    obtain ⟨key, value⟩ := entry
    rw [List.map_cons, List.mem_cons, findIn]
    split
    · next heq => simp [heq]
    · next hne => rw [← ih, or_iff_right (Ne.symm hne)]

/-- A new name comes last. -/
theorem entries_insert_of_new {map : NameMap α} {name : String} (value : α)
    (hnew : name ∉ map.keys) : (map.insert name value).entries = map.entries ++ [(name, value)] := by
  obtain ⟨entries⟩ := map
  show insertIn name value entries = entries ++ [(name, value)]
  induction entries with
  | nil => rfl
  | cons entry rest ih =>
    obtain ⟨key, old⟩ := entry
    obtain ⟨hkey, hrest⟩ := not_or.mp fun h => hnew (List.mem_cons.mpr h)
    rw [insertIn, if_neg (Ne.symm hkey), ih hrest, List.cons_append]

theorem keys_insert_of_new {map : NameMap α} {name : String} (value : α)
    (hnew : name ∉ map.keys) : (map.insert name value).keys = map.keys ++ [name] := by
  rw [keys, entries_insert_of_new value hnew, List.map_append]
  rfl

theorem keys_insert_of_mem {map : NameMap α} {name : String} (value : α) (h : name ∈ map.keys) :
    (map.insert name value).keys = map.keys := by
  obtain ⟨entries⟩ := map
  show (insertIn name value entries).map (·.1) = entries.map (·.1)
  replace h : name ∈ entries.map (·.1) := h
  induction entries with
  | nil => cases h
  | cons entry rest ih =>
    obtain ⟨key, old⟩ := entry
    rw [insertIn]
    split
    · rfl
    · next hne =>
      rcases List.mem_cons.mp h with heq | hrest
      · exact absurd heq.symm hne
      · rw [List.map_cons, List.map_cons, ih hrest]

theorem keys_modify (map : NameMap α) (name : String) (change : α → α) :
    (map.modify name change).keys = map.keys := by
  unfold modify
  split
  · next hfind => exact keys_insert_of_mem _ (mem_keys.mpr (by rw [hfind]; rfl))
  · rfl

/-- With one entry for each name, that entry is found. -/
theorem find?_of_mem {map : NameMap α} (h : map.keys.Nodup) {name : String} {value : α}
    (hentry : (name, value) ∈ map.entries) : map.find? name = some value := by
  obtain ⟨entries⟩ := map
  show findIn name entries = some value
  replace h : (entries.map (·.1)).Nodup := h
  replace hentry : (name, value) ∈ entries := hentry
  induction entries with
  | nil => cases hentry
  | cons entry rest ih =>
    obtain ⟨hfirst, hrest⟩ := List.nodup_cons.mp h
    rw [findIn]
    rcases List.mem_cons.mp hentry with heq | hmem
    · rw [← heq]
      exact if_pos rfl
    · have hne : ¬entry.1 = name := fun heq =>
        hfirst (List.mem_map.mpr ⟨(name, value), hmem, heq.symm⟩)
      rw [if_neg hne, ih hrest hmem]

end NameMap

end LoxLang
