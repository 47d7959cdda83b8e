import UtilityCss.Proofs.Text.Split
import UtilityCss.Token.Shorthand

/-!
The walk over the segments of a token.  It takes states and at most one breakpoint from the left and
never the last segment, so what it takes of a token does not change when the end of the token does.
-/

namespace UtilityCss

namespace ModifierWalk

variable {breakpoints : Breakpoints} {breakpoint other : Option Text} {state : PseudoState}
  {front segments more : List Text} {segment next last : Text} {states : List PseudoState}

theorem ofSegments_cons_cons (breakpoints : Breakpoints) (breakpoint : Option Text)
    (segment next : Text) (rest : List Text) :
    ofSegments breakpoints breakpoint (segment :: next :: rest) =
      if breakpoint.isNone && breakpoints.contains segment then
        ofSegments breakpoints (some segment) (next :: rest)
      else
        match PseudoState.ofName? segment with
        | some state =>
            let walk := ofSegments breakpoints breakpoint (next :: rest)
            { walk with states := state :: walk.states }
        | none => ⟨breakpoint, [], segment :: next :: rest⟩ :=
  (ofSegments.eq_def breakpoints breakpoint (segment :: next :: rest)).trans rfl

theorem rest_suffix (breakpoints : Breakpoints) (breakpoint : Option Text) (segments : List Text) :
    (ofSegments breakpoints breakpoint segments).rest <:+ segments := by
  fun_induction ofSegments breakpoints breakpoint segments with
  | case1 _ segment next rest _ ih => exact ih.trans (List.suffix_cons segment _)
  | case2 _ segment next rest _ state _ walk ih => exact ih.trans (List.suffix_cons segment _)
  | case3 => exact List.suffix_refl _
  | case4 => exact List.suffix_refl _

/-- States in front are taken, unless one of them is a breakpoint that can be taken. -/
theorem ofSegments_names_append
    (hstates : breakpoint = none → ∀ state ∈ states, breakpoints.contains state.name = false)
    (hne : more ≠ []) :
    ofSegments breakpoints breakpoint (states.map PseudoState.name ++ more) =
      { ofSegments breakpoints breakpoint more with
        states := states ++ (ofSegments breakpoints breakpoint more).states } := by
  induction states with
  | nil => rfl
  | cons state rest ih =>
      have hlater := ih fun hnone other hother =>
        hstates hnone other (List.mem_cons_of_mem _ hother)
      have hkey : (breakpoint.isNone && breakpoints.contains state.name) = false := by
        cases breakpoint with
        | none => simpa using hstates rfl state List.mem_cons_self
        | some key => rfl
      obtain ⟨next, others, hnext⟩ := List.exists_cons_of_ne_nil
        (List.append_ne_nil_of_right_ne_nil (rest.map PseudoState.name) hne)
      rw [List.map_cons, List.cons_append, hnext, ofSegments_cons_cons, hkey, ← hnext, hlater,
        PseudoState.ofName?_name]
      rfl

/-- Which walk a state is taken on: a segment in front of others that names it is reached. -/
theorem mem_states_cons_cons_iff :
    state ∈ (ofSegments breakpoints breakpoint (segment :: next :: more)).states ↔
      if breakpoint.isNone && breakpoints.contains segment then
        state ∈ (ofSegments breakpoints (some segment) (next :: more)).states
      else
        ∃ named, PseudoState.ofName? segment = some named ∧
          (state = named ∨ state ∈ (ofSegments breakpoints breakpoint (next :: more)).states) := by
  rw [ofSegments_cons_cons]
  split
  · rfl
  · cases PseudoState.ofName? segment <;> simp

theorem notMem_states_singleton : state ∉ (ofSegments breakpoints breakpoint [segment]).states := by
  cases breakpoint <;> exact List.not_mem_nil

/-- A state that is taken is named by a segment, and not by the last one. -/
theorem name_mem_dropLast (hstate : state ∈ (ofSegments breakpoints breakpoint segments).states) :
    state.name ∈ segments.dropLast := by
  induction segments generalizing breakpoint with
  | nil => cases breakpoint <;> cases hstate
  | cons segment rest ih =>
      cases rest with
      | nil => exact absurd hstate notMem_states_singleton
      | cons next more =>
          rw [mem_states_cons_cons_iff] at hstate
          rw [List.dropLast_cons_cons]
          split at hstate
          · exact List.mem_cons_of_mem _ (ih hstate)
          · obtain ⟨named, hnamed, rfl | hlater⟩ := hstate
            · exact PseudoState.ofName?_eq_some_iff.mp hnamed ▸ List.mem_cons_self
            · exact List.mem_cons_of_mem _ (ih hlater)

/-- A walk that takes a state behind other segments takes it when it begins there. -/
theorem exists_mem_states_of_append (hfront : state.name ∉ front) (hne : segments ≠ [])
    (hstate : state ∈ (ofSegments breakpoints breakpoint (front ++ segments)).states) :
    ∃ other, state ∈ (ofSegments breakpoints other segments).states := by
  induction front generalizing breakpoint with
  | nil => exact ⟨breakpoint, hstate⟩
  | cons segment rest ih =>
      have hrest : state.name ∉ rest := fun hmem => hfront (List.mem_cons_of_mem segment hmem)
      obtain ⟨next, more, hnext⟩ := List.exists_cons_of_ne_nil
        (List.append_ne_nil_of_right_ne_nil rest hne)
      rw [List.cons_append, hnext, mem_states_cons_cons_iff, ← hnext] at hstate
      split at hstate
      · exact ih hrest hstate
      · obtain ⟨named, hnamed, rfl | hlater⟩ := hstate
        · exact absurd (PseudoState.ofName?_eq_some_iff.mp hnamed ▸ List.mem_cons_self) hfront
        · exact ih hrest hlater

/-- Once there is a breakpoint, it makes no difference which. -/
theorem mem_states_some {key key' : Text}
    (hstate : state ∈ (ofSegments breakpoints (some key) segments).states) :
    state ∈ (ofSegments breakpoints (some key') segments).states := by
  induction segments with
  | nil => cases hstate
  | cons segment rest ih =>
      cases rest with
      | nil => exact absurd hstate notMem_states_singleton
      | cons next more =>
          rw [mem_states_cons_cons_iff, if_neg (by simp)] at hstate ⊢
          obtain ⟨named, hnamed, hfirst | hlater⟩ := hstate
          · exact ⟨named, hnamed, Or.inl hfirst⟩
          · exact ⟨named, hnamed, Or.inr (ih hlater)⟩

/-- A walk without a breakpoint takes at least the states that it takes with one, unless a
breakpoint has the name of the state. -/
theorem mem_states_none (hname : breakpoints.contains state.name = false)
    (hstate : state ∈ (ofSegments breakpoints breakpoint segments).states) :
    state ∈ (ofSegments breakpoints none segments).states := by
  cases breakpoint with
  | none => exact hstate
  | some key =>
      induction segments with
      | nil => cases hstate
      | cons segment rest ih =>
          cases rest with
          | nil => exact absurd hstate notMem_states_singleton
          | cons next more =>
              rw [mem_states_cons_cons_iff, if_neg (by simp)] at hstate
              obtain ⟨named, hnamed, htaken⟩ := hstate
              rw [mem_states_cons_cons_iff]
              split
              · rename_i hkey
                rcases htaken with rfl | hlater
                · rw [PseudoState.ofName?_eq_some_iff.mp hnamed] at hname
                  simp [hname] at hkey
                · exact mem_states_some hlater
              · exact ⟨named, hnamed, htaken.imp_right ih⟩

/-- The last segment is none of the states, whatever it is. -/
theorem states_concat (breakpoints : Breakpoints) (breakpoint : Option Text) (front : List Text)
    (last last' : Text) :
    (ofSegments breakpoints breakpoint (front ++ [last])).states =
      (ofSegments breakpoints breakpoint (front ++ [last'])).states := by
  induction front generalizing breakpoint with
  | nil => cases breakpoint <;> rfl
  | cons segment rest ih =>
      obtain ⟨next, others, hnext⟩ := List.exists_cons_of_ne_nil
        (List.append_ne_nil_of_right_ne_nil rest (List.cons_ne_nil last []))
      obtain ⟨next', others', hnext'⟩ := List.exists_cons_of_ne_nil
        (List.append_ne_nil_of_right_ne_nil rest (List.cons_ne_nil last' []))
      rw [List.cons_append, List.cons_append, hnext, hnext', ofSegments_cons_cons,
        ofSegments_cons_cons, ← hnext, ← hnext']
      split
      · exact ih _
      · split
        · dsimp only
          rw [ih]
        · rfl

/-- What is taken does not depend on the end of the segments. -/
theorem mem_states_of_last (hne : more ≠ [])
    (hstate : state ∈ (ofSegments breakpoints breakpoint (segments ++ [last])).states) :
    state ∈ (ofSegments breakpoints breakpoint (segments ++ more)).states := by
  induction segments generalizing breakpoint with
  | nil => exact absurd hstate notMem_states_singleton
  | cons segment rest ih =>
      obtain ⟨next, others, hnext⟩ := List.exists_cons_of_ne_nil
        (List.append_ne_nil_of_right_ne_nil rest (List.cons_ne_nil last []))
      obtain ⟨next', others', hnext'⟩ := List.exists_cons_of_ne_nil
        (List.append_ne_nil_of_right_ne_nil rest hne)
      rw [List.cons_append, hnext, mem_states_cons_cons_iff, ← hnext] at hstate
      rw [List.cons_append, hnext', mem_states_cons_cons_iff, ← hnext']
      split at hstate
      · rename_i hkey
        rw [if_pos hkey]
        exact ih hstate
      · rename_i hkey
        rw [if_neg hkey]
        obtain ⟨named, hnamed, hfirst | hlater⟩ := hstate
        · exact ⟨named, hnamed, Or.inl hfirst⟩
        · exact ⟨named, hnamed, Or.inr (ih hlater)⟩

end ModifierWalk

theorem Importance.colon_notMem_suffix (importance : Importance) : ':' ∉ importance.suffix := by
  cases importance <;> decide

/-- The marks are part of the last segment, so they make no difference to the states. -/
theorem ParsedToken.states_parse (breakpoints : Breakpoints) (raw : Text) :
    (parse breakpoints raw).states =
      (ModifierWalk.ofSegments breakpoints none (raw.splitOn ':')).states := by
  obtain ⟨parts, last, first, others, hbody, hmarks, hjoined⟩ :=
    Text.exists_splitOn_append ':' (Importance.split raw).1 (Importance.split raw).2.suffix
  rw [List.splitOn_eq_singleton (Importance.colon_notMem_suffix _)] at hmarks
  obtain ⟨rfl, rfl⟩ := List.cons.inj hmarks
  rw [Importance.split_append] at hjoined
  rw [hjoined]
  change (ModifierWalk.ofSegments breakpoints none ((Importance.split raw).1.splitOn ':')).states = _
  rw [hbody]
  exact ModifierWalk.states_concat breakpoints none parts last _

end UtilityCss
