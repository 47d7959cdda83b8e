/-!
Finite maps that remember the order in which their keys first arrived.  A write to a present key
keeps its place; a new key goes to the end; an erasure closes the gap.  The entries have distinct
keys, and `get?_insert`, `get?_erase` and `keys_insert` say what each operation does to a look-up
and to the order.
-/

namespace UtilityCss

variable {α β : Type}

namespace Entries

/-- The value of the first entry with this key. -/
def get? [DecidableEq α] (key : α) : List (α × β) → Option β
  | [] => none
  | (k, v) :: rest => if k = key then some v else get? key rest

/-- Change the value under `key` in place, or put `change none` at the end. -/
def alter [DecidableEq α] (key : α) (change : Option β → β) : List (α × β) → List (α × β)
  | [] => [(key, change none)]
  | (k, v) :: rest =>
      if k = key then (k, change (some v)) :: rest else (k, v) :: alter key change rest

/-- Drop the entry with this key. -/
def erase [DecidableEq α] (key : α) (entries : List (α × β)) : List (α × β) :=
  entries.filter fun entry => entry.1 ≠ key

theorem get?_alter [DecidableEq α] (key probe : α) (change : Option β → β)
    (entries : List (α × β)) :
    get? probe (alter key change entries) =
      if probe = key then some (change (get? key entries)) else get? probe entries := by
  induction entries with
  | nil => grind [alter, get?]
  | cons entry rest ih => grind [alter, get?]

theorem keys_alter [DecidableEq α] (key : α) (change : Option β → β) (entries : List (α × β)) :
    (alter key change entries).map Prod.fst =
      if key ∈ entries.map Prod.fst then entries.map Prod.fst
      else entries.map Prod.fst ++ [key] := by
  induction entries with
  | nil => simp [alter]
  | cons entry rest ih =>
      obtain ⟨k, v⟩ := entry
      by_cases hk : k = key
      · simp [alter, hk]
      · simp only [alter, hk, ↓reduceIte, List.map_cons, ih, List.mem_cons, Ne.symm hk, false_or]
        split <;> simp

theorem get?_erase [DecidableEq α] (key probe : α) (entries : List (α × β)) :
    get? probe (erase key entries) = if probe = key then none else get? probe entries := by
  induction entries with
  | nil => simp [erase, get?]
  | cons entry rest ih => grind [erase, get?]

theorem get?_eq_none_iff [DecidableEq α] {key : α} {entries : List (α × β)} :
    get? key entries = none ↔ key ∉ entries.map Prod.fst := by
  induction entries with
  | nil => simp [get?]
  | cons entry rest ih => grind [get?]

theorem get?_eq_some_iff [DecidableEq α] {key : α} {value : β} {entries : List (α × β)}
    (hnodup : (entries.map Prod.fst).Nodup) :
    get? key entries = some value ↔ (key, value) ∈ entries := by
  induction entries with
  | nil => simp [get?]
  | cons entry rest ih =>
      obtain ⟨k, v⟩ := entry
      simp only [List.map_cons, List.nodup_cons] at hnodup
      by_cases hk : k = key
      · subst hk
        have habsent : (k, value) ∉ rest := fun hmem =>
          hnodup.1 (List.mem_map_of_mem hmem)
        simp [get?, habsent, eq_comm]
      · simp [get?, hk, Ne.symm hk, ih hnodup.2]

theorem get?_filter [DecidableEq α] (keep : α → β → Bool) (key : α) {entries : List (α × β)}
    (hnodup : (entries.map Prod.fst).Nodup) :
    get? key (entries.filter fun (k, v) => keep k v) = (get? key entries).filter (keep key) := by
  induction entries with
  | nil => simp [get?]
  | cons entry rest ih =>
      obtain ⟨k, v⟩ := entry
      simp only [List.map_cons, List.nodup_cons] at hnodup
      have hrest := ih hnodup.2
      by_cases hk : k = key
      · subst hk
        have hnone : get? k rest = none := get?_eq_none_iff.mpr hnodup.1
        by_cases hkeep : keep k v = true
        · simp [get?, Option.filter, hkeep]
        · simp [get?, Option.filter, hkeep, hrest, hnone]
      · by_cases hkeep : keep k v = true
        · simp [get?, hkeep, hk, hrest]
        · simp [get?, hkeep, hk, hrest]

theorem nodup_alter [DecidableEq α] (key : α) (change : Option β → β) {entries : List (α × β)}
    (hnodup : (entries.map Prod.fst).Nodup) : ((alter key change entries).map Prod.fst).Nodup := by
  rw [keys_alter]
  split
  · exact hnodup
  · rename_i hkey
    refine List.nodup_append.mpr ⟨hnodup, by simp, ?_⟩
    intro a ha b hb
    rw [List.mem_singleton] at hb
    rintro rfl
    exact hkey (hb ▸ ha)

theorem nodup_erase [DecidableEq α] (key : α) {entries : List (α × β)}
    (hnodup : (entries.map Prod.fst).Nodup) : ((erase key entries).map Prod.fst).Nodup :=
  hnodup.sublist (List.filter_sublist.map Prod.fst)

end Entries

/-- A finite map whose keys keep the order of their first arrival. -/
structure OrderedMap (α β : Type) where
  entries : List (α × β)
  nodup_keys : (entries.map Prod.fst).Nodup

namespace OrderedMap

@[ext]
theorem ext {m n : OrderedMap α β} (hentries : m.entries = n.entries) : m = n := by
  cases m
  cases n
  simp_all

instance [DecidableEq α] [DecidableEq β] : DecidableEq (OrderedMap α β) := fun m n =>
  decidable_of_iff (m.entries = n.entries) ⟨ext, fun h => h ▸ rfl⟩

def empty : OrderedMap α β := ⟨[], List.nodup_nil⟩

instance : Inhabited (OrderedMap α β) := ⟨empty⟩

instance : EmptyCollection (OrderedMap α β) := ⟨empty⟩

def keys (m : OrderedMap α β) : List α := m.entries.map Prod.fst

def values (m : OrderedMap α β) : List β := m.entries.map Prod.snd

def size (m : OrderedMap α β) : Nat := m.entries.length

def isEmpty (m : OrderedMap α β) : Bool := m.entries.isEmpty

theorem isEmpty_iff {m : OrderedMap α β} : m.isEmpty = true ↔ m.keys = [] := by
  simp [isEmpty, keys]

variable [DecidableEq α]

def get? (m : OrderedMap α β) (key : α) : Option β := Entries.get? key m.entries

def contains (m : OrderedMap α β) (key : α) : Bool := (m.get? key).isSome

/-- Change the value under `key` in place; a key that is new gets `change none`, at the end. -/
def alter (m : OrderedMap α β) (key : α) (change : Option β → β) : OrderedMap α β :=
  ⟨Entries.alter key change m.entries, Entries.nodup_alter key change m.nodup_keys⟩

/-- A present key keeps its place and takes the new value; a new one goes to the end. -/
def insert (m : OrderedMap α β) (key : α) (value : β) : OrderedMap α β :=
  m.alter key fun _ => value

/-- Write only if the key is new. -/
def insertNew (m : OrderedMap α β) (key : α) (value : β) : OrderedMap α β :=
  m.alter key (·.getD value)

/-- Drop a key; the others keep their order. -/
def erase (m : OrderedMap α β) (key : α) : OrderedMap α β :=
  ⟨Entries.erase key m.entries, Entries.nodup_erase key m.nodup_keys⟩

/-- Write the pairs one after the other. -/
def ofList (pairs : List (α × β)) : OrderedMap α β :=
  pairs.foldl (fun m (key, value) => m.insert key value) empty

/-- The entries that pass the test, in order. -/
def filter (keep : α → β → Bool) (m : OrderedMap α β) : OrderedMap α β :=
  ⟨m.entries.filter fun (key, value) => keep key value,
    m.nodup_keys.sublist (List.filter_sublist.map Prod.fst)⟩

@[simp]
theorem get?_empty (key : α) : (empty : OrderedMap α β).get? key = none := rfl

theorem get?_alter (m : OrderedMap α β) (key probe : α) (change : Option β → β) :
    (m.alter key change).get? probe =
      if probe = key then some (change (m.get? key)) else m.get? probe :=
  Entries.get?_alter key probe change m.entries

theorem get?_insert (m : OrderedMap α β) (key probe : α) (value : β) :
    (m.insert key value).get? probe = if probe = key then some value else m.get? probe :=
  get?_alter m key probe _

theorem get?_erase (m : OrderedMap α β) (key probe : α) :
    (m.erase key).get? probe = if probe = key then none else m.get? probe :=
  Entries.get?_erase key probe m.entries

theorem get?_filter (keep : α → β → Bool) (m : OrderedMap α β) (key : α) :
    (m.filter keep).get? key = (m.get? key).filter (keep key) :=
  Entries.get?_filter keep key m.nodup_keys

theorem get?_insertNew (m : OrderedMap α β) (key probe : α) (value : β) :
    (m.insertNew key value).get? probe =
      if probe = key then some ((m.get? key).getD value) else m.get? probe :=
  get?_alter m key probe _

theorem get?_eq_none_iff {m : OrderedMap α β} {key : α} : m.get? key = none ↔ key ∉ m.keys :=
  Entries.get?_eq_none_iff

theorem mem_entries_iff {m : OrderedMap α β} {key : α} {value : β} :
    (key, value) ∈ m.entries ↔ m.get? key = some value :=
  (Entries.get?_eq_some_iff m.nodup_keys).symm

theorem mem_keys_iff {m : OrderedMap α β} {key : α} :
    key ∈ m.keys ↔ ∃ value, m.get? key = some value := by
  rw [← Option.isSome_iff_exists, Option.isSome_iff_ne_none, ne_eq, get?_eq_none_iff,
    Decidable.not_not]

theorem mem_values_iff {m : OrderedMap α β} {value : β} :
    value ∈ m.values ↔ ∃ key, m.get? key = some value := by
  simp only [values, List.mem_map, Prod.exists, exists_eq_right, mem_entries_iff]

theorem contains_iff {m : OrderedMap α β} {key : α} : m.contains key = true ↔ key ∈ m.keys := by
  rw [contains, Option.isSome_iff_ne_none, ne_eq, get?, Entries.get?_eq_none_iff, keys]
  exact Decidable.not_not

theorem contains_insert {m : OrderedMap α β} {key probe : α} {value : β} :
    (m.insert key value).contains probe = true ↔ probe = key ∨ m.contains probe = true := by
  rw [contains, get?_insert]
  split
  · rename_i heq
    exact iff_of_true rfl (Or.inl heq)
  · rename_i hne
    exact (or_iff_right hne).symm

theorem keys_insert (m : OrderedMap α β) (key : α) (value : β) :
    (m.insert key value).keys = if key ∈ m.keys then m.keys else m.keys ++ [key] :=
  Entries.keys_alter key _ m.entries

theorem keys_erase (m : OrderedMap α β) (key : α) :
    (m.erase key).keys = m.keys.filter (· ≠ key) := by
  simp [keys, erase, Entries.erase, List.filter_map, Function.comp_def]

end OrderedMap

end UtilityCss
