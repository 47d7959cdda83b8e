import Mathlib.Data.List.Induction
import Mathlib.Data.List.Nodup

/-!
Lists and loops, as the rest of the library needs them: what a loop does not change, the last item of
a list, and the items of a list in the order in which they first occur.
-/

namespace UtilityCss

/-- What no step of a loop changes, the loop does not change. -/
theorem foldl_eq_of_step {σ α β : Type} {step : σ → α → σ} (read : σ → β)
    (hstep : ∀ state item, read (step state item) = read state) (items : List α) (state : σ) :
    read (items.foldl step state) = read state := by
  induction items generalizing state with
  | nil => rfl
  | cons item rest ih => rw [List.foldl_cons, ih, hstep]

/-- A loop none of whose steps has anything to do. -/
theorem foldl_of_fixed {α β : Type} {step : β → α → β} {items : List α} {start : β}
    (hstep : ∀ item ∈ items, step start item = start) : items.foldl step start = start :=
  List.foldlRecOn (motive := fun state => state = start) items step rfl
    fun _ hstate item hitem => hstate.symm ▸ hstep item hitem

theorem concat_eq_append_cons_iff {α : Type} {items before after : List α} {last item : α} :
    items ++ [last] = before ++ item :: after ↔
      before = items ∧ item = last ∧ after = [] ∨
        ∃ rest, items = before ++ item :: rest ∧ after = rest ++ [last] := by
  constructor
  · intro heq
    rcases List.eq_nil_or_concat after with rfl | ⟨rest, final, rfl⟩
    · obtain ⟨hitems, hlast⟩ := List.append_inj' heq rfl
      exact Or.inl ⟨hitems.symm, (List.cons.inj hlast).1.symm, rfl⟩
    · rw [List.concat_eq_append, ← List.cons_append, ← List.append_assoc] at heq
      obtain ⟨hitems, hlast⟩ := List.append_inj' heq rfl
      exact Or.inr ⟨rest, hitems, by rw [List.concat_eq_append, (List.cons.inj hlast).1]⟩
  · rintro (⟨rfl, rfl, rfl⟩ | ⟨rest, rfl, rfl⟩)
    · rfl
    · simp

theorem eraseDups_concat {α : Type} [BEq α] [LawfulBEq α] (seen : List α) (item : α) :
    (seen ++ [item]).eraseDups =
      if item ∈ seen then seen.eraseDups else seen.eraseDups ++ [item] := by
  rw [List.eraseDups_append]
  by_cases hitem : item ∈ seen <;> simp [List.removeAll, List.eraseDups_cons, hitem]

theorem nodup_eraseDups {α : Type} [BEq α] [LawfulBEq α] (items : List α) :
    items.eraseDups.Nodup := by
  induction items using List.reverseRecOn with
  | nil => exact List.nodup_nil
  | append_singleton seen item ih =>
      rw [eraseDups_concat]
      split
      · exact ih
      · rename_i hnew
        rw [← List.concat_eq_append]
        exact List.Nodup.concat (by rwa [List.mem_eraseDups]) ih

end UtilityCss
