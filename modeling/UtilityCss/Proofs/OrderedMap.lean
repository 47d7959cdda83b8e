import UtilityCss.OrderedMap

/-!
What a write to an ordered map does to the list of its entries: nothing when the value is there
already, and one more entry at the end when the key is new.
-/

namespace UtilityCss

namespace Entries

variable {α β : Type} [DecidableEq α]

theorem alter_of_not_mem {key : α} {entries : List (α × β)} (hkey : key ∉ entries.map Prod.fst)
    (change : Option β → β) : alter key change entries = entries ++ [(key, change none)] := by
  induction entries with
  | nil => rfl
  | cons entry rest ih =>
      rw [List.map_cons, List.mem_cons, not_or] at hkey
      rw [alter, if_neg (Ne.symm hkey.1), ih hkey.2, List.cons_append]

theorem alter_of_get? {key : α} {value : β} {entries : List (α × β)}
    (hvalue : get? key entries = some value) {change : Option β → β}
    (hchange : change (some value) = value) : alter key change entries = entries := by
  induction entries with
  | nil => cases hvalue
  | cons entry rest ih =>
      obtain ⟨first, old⟩ := entry
      rw [get?] at hvalue
      rw [alter]
      split at hvalue
      · rename_i hfirst
        cases hvalue
        rw [if_pos hfirst, hchange]
      · rename_i hfirst
        rw [if_neg hfirst, ih hvalue]

theorem get?_map_self {keys : List α} (key : α) (value : α → β) :
    get? key (keys.map fun k => (k, value k)) = if key ∈ keys then some (value key) else none := by
  induction keys with
  | nil => rfl
  | cons first rest ih =>
      rw [List.map_cons, get?]
      by_cases hfirst : first = key
      · simp [hfirst]
      · simp [hfirst, Ne.symm hfirst, ih]

end Entries

namespace OrderedMap

variable {α β : Type} [DecidableEq α] {m : OrderedMap α β} {key : α}

theorem insert_of_get? {value : β} (hvalue : m.get? key = some value) :
    m.insert key value = m :=
  ext (Entries.alter_of_get? hvalue rfl)

theorem insert_insert_self (m : OrderedMap α β) (key : α) (value : β) :
    (m.insert key value).insert key value = m.insert key value :=
  insert_of_get? (by rw [get?_insert, if_pos rfl])

theorem insertNew_of_mem (hkey : key ∈ m.keys) (value : β) : m.insertNew key value = m := by
  obtain ⟨old, hold⟩ := mem_keys_iff.mp hkey
  exact ext (Entries.alter_of_get? hold rfl)

theorem entries_insertNew_of_not_mem (hkey : key ∉ m.keys) (value : β) :
    (m.insertNew key value).entries = m.entries ++ [(key, value)] :=
  Entries.alter_of_not_mem hkey _

theorem keys_insertNew (m : OrderedMap α β) (key : α) (value : β) :
    (m.insertNew key value).keys = if key ∈ m.keys then m.keys else m.keys ++ [key] :=
  Entries.keys_alter key _ m.entries

theorem erase_of_get?_eq_none (hkey : m.get? key = none) : m.erase key = m := by
  have habsent := get?_eq_none_iff.mp hkey
  refine ext (List.filter_eq_self.mpr fun entry hentry => ?_)
  rw [decide_eq_true_eq]
  rintro rfl
  exact habsent (List.mem_map_of_mem hentry)

theorem entries_foldl_insert {pairs : List (α × β)} {m : OrderedMap α β}
    (hnodup : ((m.entries ++ pairs).map Prod.fst).Nodup) :
    (pairs.foldl (fun m (key, value) => m.insert key value) m).entries = m.entries ++ pairs := by
  induction pairs generalizing m with
  | nil => rw [List.foldl_nil, List.append_nil]
  | cons pair rest ih =>
      obtain ⟨key, value⟩ := pair
      have hkey : key ∉ m.entries.map Prod.fst := by
        rw [List.map_append, List.nodup_append] at hnodup
        exact fun hmem => hnodup.2.2 key hmem key List.mem_cons_self rfl
      have hentries : (m.insert key value).entries = m.entries ++ [(key, value)] :=
        Entries.alter_of_not_mem hkey _
      have hrest := ih (m := m.insert key value) (by rwa [hentries, List.append_assoc])
      rw [List.foldl_cons, hrest, hentries, List.append_assoc]
      rfl

/-- Writing the entries of a map one after the other gives the map, with its order. -/
theorem ofList_entries (m : OrderedMap α β) : ofList m.entries = m :=
  ext (entries_foldl_insert (m := empty) m.nodup_keys)

end OrderedMap

end UtilityCss
