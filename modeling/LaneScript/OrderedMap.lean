/-!
# Maps that keep the order of insertion

A map from keys to values whose entries stand in the order in which their keys came first.  A key
that comes again keeps its place; only its value changes.
-/

namespace LaneScript

/-- A list of entries in which no key stands twice. -/
structure OrderedMap (α β : Type) where
  entries : List (α × β)
  nodup : (entries.map Prod.fst).Nodup

namespace OrderedMap

variable {α β γ : Type} [DecidableEq α]

/-- The map without entries. -/
def empty : OrderedMap α β := ⟨[], List.nodup_nil⟩

instance : Inhabited (OrderedMap α β) := ⟨empty⟩

instance [DecidableEq β] : DecidableEq (OrderedMap α β) := fun m n =>
  decidable_of_iff (m.entries = n.entries) <| by
    cases m
    cases n
    simp

/-- The keys in order. -/
def keys (m : OrderedMap α β) : List α := m.entries.map Prod.fst

/-- How many keys there are. -/
def size (m : OrderedMap α β) : Nat := m.entries.length

/-- There is no key. -/
def isEmpty (m : OrderedMap α β) : Bool := m.entries.isEmpty

/-- The value of a key. -/
def get? (m : OrderedMap α β) (key : α) : Option β := m.entries.lookup key

/-- Changes the value of a key in a list of entries, at its place or behind all others. -/
def updateEntries (key : α) (change : Option β → β) : List (α × β) → List (α × β)
  | [] => [(key, change none)]
  | (k, v) :: others =>
    if k = key then (k, change (some v)) :: others
    else (k, v) :: updateEntries key change others

/-- A new key comes last and an old one stays where it is. -/
theorem map_fst_updateEntries (key : α) (change : Option β → β) (entries : List (α × β)) :
    (updateEntries key change entries).map Prod.fst =
      if key ∈ entries.map Prod.fst then entries.map Prod.fst
      else entries.map Prod.fst ++ [key] := by
  induction entries with
  | nil => simp [updateEntries]
  | cons entry others ih =>
    obtain ⟨k, v⟩ := entry
    by_cases h : k = key
    · simp [updateEntries, h]
    · have hne : ¬ key = k := fun e => h e.symm
      simp only [updateEntries, h, if_false, List.map_cons, ih, List.mem_cons, hne, false_or]
      split <;> simp

/-- Changes the value of a key, which gets a place if it has none. -/
def update (m : OrderedMap α β) (key : α) (change : Option β → β) : OrderedMap α β where
  entries := updateEntries key change m.entries
  nodup := by
    rw [map_fst_updateEntries]
    split
    · exact m.nodup
    · rename_i h
      exact List.nodup_append.2 ⟨m.nodup, by simp, fun a ha b hb e => h (by
        rw [List.mem_singleton] at hb
        rw [← hb, ← e]
        exact ha)⟩

/-- Sets the value of a key. -/
def insert (m : OrderedMap α β) (key : α) (value : β) : OrderedMap α β :=
  m.update key fun _ => value

/-- The map of some entries, of which the last one of a key holds. -/
def ofList (entries : List (α × β)) : OrderedMap α β :=
  entries.foldl (fun m entry => m.insert entry.1 entry.2) empty

/-- A new key comes last and an old one stays where it is. -/
theorem keys_update (m : OrderedMap α β) (key : α) (change : Option β → β) :
    (m.update key change).keys = if key ∈ m.keys then m.keys else m.keys ++ [key] :=
  map_fst_updateEntries key change m.entries

theorem lookup_updateEntries (key k : α) (change : Option β → β) (entries : List (α × β)) :
    (updateEntries key change entries).lookup k =
      if k = key then some (change (entries.lookup key)) else entries.lookup k := by
  induction entries with
  | nil =>
    by_cases h : k = key
    · simp [updateEntries, h]
    · have hk : (k == key) = false := by simpa using h
      simp [updateEntries, List.lookup_cons, h, hk]
  | cons entry others ih =>
    obtain ⟨j, v⟩ := entry
    by_cases hj : j = key
    · subst hj
      by_cases h : k = j
      · simp [updateEntries, h]
      · have hk : (k == j) = false := by simpa using h
        simp [updateEntries, List.lookup_cons, h, hk]
    · have hkj : (key == j) = false := by simpa using fun e => hj (Eq.symm e)
      simp only [updateEntries, hj, if_false, List.lookup_cons, hkj, ih]
      by_cases h : k = key
      · subst h
        simp [hkj]
      · simp [h]

/-- The value of a key changes, and no other. -/
theorem get?_update (m : OrderedMap α β) (key k : α) (change : Option β → β) :
    (m.update key change).get? k = if k = key then some (change (m.get? key)) else m.get? k :=
  lookup_updateEntries key k change m.entries

omit [DecidableEq α] in
@[simp] theorem keys_empty : (empty : OrderedMap α β).keys = [] := rfl

@[simp] theorem get?_empty (key : α) : (empty : OrderedMap α β).get? key = none := rfl

theorem mem_updateEntries {key : α} {change : Option β → β}
    {entries : List (α × β)} {entry : α × β}
    (h : entry ∈ updateEntries key change entries) :
    (∃ old, entry = (key, change old)) ∨ entry ∈ entries := by
  induction entries with
  | nil => exact .inl ⟨none, List.mem_singleton.1 h⟩
  | cons first others ih =>
    obtain ⟨k, v⟩ := first
    rw [updateEntries] at h
    split at h
    next hkey =>
      rcases List.mem_cons.1 h with rfl | h
      · exact .inl ⟨some v, by rw [hkey]⟩
      · exact .inr (List.mem_cons_of_mem _ h)
    · rcases List.mem_cons.1 h with rfl | h
      · exact .inr List.mem_cons_self
      · rcases ih h with h | h
        · exact .inl h
        · exact .inr (List.mem_cons_of_mem _ h)

/-- The entries of a map come from the list it is made of. -/
theorem mem_ofList {entries : List (α × β)} {entry : α × β}
    (h : entry ∈ (ofList entries).entries) : entry ∈ entries := by
  have hfold : ∀ m : OrderedMap α β,
      entry ∈ (entries.foldl (fun m entry => m.insert entry.1 entry.2) m).entries →
        entry ∈ m.entries ∨ entry ∈ entries := by
    clear h
    induction entries with
    | nil => exact fun m h => .inl h
    | cons first others ih =>
      intro m h
      rcases ih _ h with h | h
      · rcases mem_updateEntries h with ⟨old, rfl⟩ | h
        · exact .inr List.mem_cons_self
        · exact .inl h
      · exact .inr (List.mem_cons_of_mem _ h)
  rcases hfold .empty h with h | h
  · cases h
  · exact h

end OrderedMap
end LaneScript
