import UtilityCss.Proofs.Token.Walk

/-!
Front forms and shorthands, taken apart.  A front form holds the parts of the token in another
order, and each token of a shorthand is made of a breakpoint, the states of the shorthand and a
value that the walk over its segments cannot mistake for a state.
-/

namespace UtilityCss

variable {breakpoints : Breakpoints} {ctx : Context} {tables : Tables}
  {raw base expanded value stem : Text} {values tokens : List Text} {token : ParsedToken} {c : Char}

/-- A token with the breakpoint from behind its last `@` in front, or as it is. -/
def frontForm (breakpoints : Breakpoints) (raw : Text) : Text :=
  (breakpointToFront breakpoints raw).getD raw

theorem frontForm_eq_or (breakpoints : Breakpoints) (raw : Text) :
    frontForm breakpoints raw = raw ∨
      ∃ token key, breakpoints.contains key = true ∧
        raw = token ++ '@' :: key ++ (Importance.split raw).2.suffix ∧
        frontForm breakpoints raw = key ++ ':' :: token ++ (Importance.split raw).2.suffix := by
  rw [frontForm, breakpointToFront]
  dsimp only
  split
  · rename_i token key hcut
    split
    · exact Or.inl rfl
    · rename_i hkey
      rw [Bool.or_eq_true, Bool.not_eq_true', not_or, Bool.not_eq_false] at hkey
      refine Or.inr ⟨token, key, hkey.2, ?_, rfl⟩
      rw [← Text.splitLast_eq_some hcut, Importance.split_append]
  · exact Or.inl rfl

/-- Moving the breakpoint brings no character along but the colon behind it. -/
theorem notMem_frontForm (hc : c ≠ ':') (hraw : c ∉ raw) : c ∉ frontForm breakpoints raw := by
  rcases frontForm_eq_or breakpoints raw with heq | ⟨token, key, -, hparts, heq⟩
  · rwa [heq]
  · rw [hparts] at hraw
    rw [heq]
    simp only [List.mem_append, List.mem_cons, not_or] at hraw ⊢
    exact ⟨⟨hraw.1.2.2, hc, hraw.1.1⟩, hraw.2⟩

/-- A stem is made of the characters of the value it is read from. -/
theorem mem_of_mem_utilityStem? (hstem : utilityStem? tables value = some stem) (hc : c ∈ stem) :
    c ∈ value := by
  have hknown : ∀ {sign unsigned name behind : Text}, value = sign ++ unsigned →
      (name, behind) ∈ Text.cuts '-' unsigned → some (sign ++ name) = some stem → c ∈ value := by
    intro sign unsigned name behind hvalue hcut hname
    rw [← Option.some.inj hname] at hc
    rw [hvalue, Text.eq_append_of_mem_cuts hcut]
    rcases List.mem_append.mp hc with hsign | hname
    · exact List.mem_append_left _ hsign
    · exact List.mem_append_right _ (List.mem_append_left _ hname)
  have hlast : (Text.splitLast '-' value).map Prod.fst = some stem → c ∈ value := by
    intro hsplit
    obtain ⟨⟨front, behind⟩, hcut, rfl⟩ := Option.map_eq_some_iff.mp hsplit
    rw [Text.splitLast_eq_some hcut]
    exact List.mem_append_left _ hc
  unfold utilityStem? at hstem
  cases hafter : Text.after? ['-'] value with
  | some rest =>
      rw [hafter] at hstem
      dsimp only at hstem
      split at hstem
      · rename_i hcut
        exact hknown (Text.after?_eq_some_iff.mp hafter) (List.mem_of_find?_eq_some hcut) hstem
      · exact hlast hstem
  | none =>
      rw [hafter] at hstem
      dsimp only at hstem
      split at hstem
      · rename_i hcut
        exact hknown (List.nil_append value).symm (List.mem_of_find?_eq_some hcut) hstem
      · exact hlast hstem

/-- A value with a utility in front ends in the value, and the front is of the first value or the
dash. -/
theorem exists_withStem_eq_append (first : Option Text) (value : Text) :
    ∃ front, withStem (first.bind (utilityStem? tables)) value = front ++ value ∧
      ∀ c ∈ front, c = '-' ∨ ∃ text, first = some text ∧ c ∈ text := by
  cases hstem : first.bind (utilityStem? tables) with
  | none => exact ⟨[], rfl, by simp⟩
  | some stem =>
      obtain ⟨text, rfl, hread⟩ := Option.bind_eq_some_iff.mp hstem
      rw [withStem]
      split
      · exact ⟨[], rfl, by simp⟩
      · refine ⟨stem ++ ['-'], rfl, fun c hc => ?_⟩
        rcases List.mem_append.mp hc with hc | hdash
        · exact Or.inr ⟨text, rfl, mem_of_mem_utilityStem? hread hc⟩
        · exact Or.inl (List.mem_singleton.mp hdash)

/-- A value with its utility in front holds nothing but the dash that the values do not hold. -/
theorem notMem_withStem (hc : c ≠ '-') (hvalues : ∀ part ∈ values, c ∉ part)
    (hvalue : value ∈ values) : c ∉ withStem (values.head?.bind (utilityStem? tables)) value := by
  obtain ⟨front, hfront, horigin⟩ := @exists_withStem_eq_append tables values.head? value
  rw [hfront, List.mem_append, not_or]
  refine ⟨fun hmem => ?_, hvalues value hvalue⟩
  rcases horigin c hmem with hdash | ⟨part, hpart, hmem⟩
  · exact hc hdash
  · exact hvalues part (List.mem_of_head? hpart) hmem

/-- Whether a base is written as a shorthand with a number of values that fits the breakpoints. -/
def IsFittingShorthand (breakpoints : Breakpoints) (base : Text) : Prop :=
  ∃ separator, valueSeparator? base = some separator ∧
    separator.fits (shorthandValues base).length breakpoints.size = true

theorem fittingValues?_eq_some_iff :
    fittingValues? breakpoints base = some values ↔
      IsFittingShorthand breakpoints base ∧ shorthandValues base = values := by
  unfold fittingValues? IsFittingShorthand
  cases valueSeparator? base with
  | none => simp
  | some separator => simp

theorem fittingValues?_eq_none_iff :
    fittingValues? breakpoints base = none ↔ ¬ IsFittingShorthand breakpoints base := by
  simp [Option.eq_none_iff_forall_ne_some, fittingValues?_eq_some_iff]

theorem IsFittingShorthand.length_le (hfitting : IsFittingShorthand breakpoints base) :
    (shorthandValues base).length ≤ breakpoints.size := by
  obtain ⟨separator, -, hfits⟩ := hfitting
  cases separator with
  | pipe => exact Nat.le_of_eq (of_decide_eq_true hfits)
  | colon =>
      rw [ValueSeparator.fits, Bool.and_eq_true, decide_eq_true_eq, decide_eq_true_eq] at hfits
      exact hfits.2

/-- A shorthand is written with a separator. -/
theorem IsFittingShorthand.separator_mem (hfitting : IsFittingShorthand breakpoints base) :
    '|' ∈ base ∨ ':' ∈ base := by
  obtain ⟨separator, hseparator, -⟩ := hfitting
  refine Decidable.byContradiction fun hnone => ?_
  rw [not_or] at hnone
  rw [valueSeparator?, Text.splitFirst_eq_none_iff.mpr hnone.2] at hseparator
  simp [hnone.1] at hseparator

/-- The values of a shorthand have no separator in them. -/
theorem notMem_of_mem_shorthandValues (hvalue : value ∈ shorthandValues base) :
    '|' ∉ value ∧ ':' ∉ value := by
  have hpart := Text.forall_mem_splitOnP value hvalue
  exact ⟨fun hmem => by simpa using hpart '|' hmem, fun hmem => by simpa using hpart ':' hmem⟩

namespace ParsedToken

/-- The base is the end of the token in front of the marks. -/
theorem base_parse_suffix (breakpoints : Breakpoints) (raw : Text) :
    (parse breakpoints raw).base <:+ (Importance.split raw).1 := by
  have hrest := @Text.intercalate_suffix [':'] _ _
    (ModifierWalk.rest_suffix breakpoints none ((Importance.split raw).1.splitOn ':'))
  rwa [List.intercalate_splitOn] at hrest

theorem base_parse_isInfix (breakpoints : Breakpoints) (raw : Text) :
    (parse breakpoints raw).base <:+: raw := by
  have hfront : (Importance.split raw).1 <+: raw := ⟨_, Importance.split_append raw⟩
  exact (base_parse_suffix breakpoints raw).isInfix.trans hfront.isInfix

theorem notMem_base_parse (hraw : c ∉ raw) : c ∉ (parse breakpoints raw).base := fun hc =>
  hraw ((base_parse_isInfix breakpoints raw).subset hc)

/-- Each token of a shorthand names a breakpoint and the states of the shorthand, and then a value
that is not empty, maybe with its utility in front. -/
theorem exists_of_mem_expandShorthand? (htokens : token.expandShorthand? ctx = some tokens)
    (hexpanded : expanded ∈ tokens) :
    ∃ key ∈ ctx.breakpoints.keys, ∃ front, ∃ value ∈ shorthandValues token.base, value ≠ [] ∧
      ':' ∉ front ++ value ∧
      expanded = key ++ ':' :: token.statePrefix ++ (front ++ value) ++ token.importance.suffix := by
  obtain ⟨values, hvalues, rfl⟩ := Option.map_eq_some_iff.mp htokens
  obtain ⟨-, rfl⟩ := fittingValues?_eq_some_iff.mp hvalues
  obtain ⟨⟨key, value⟩, hpair, hsome⟩ := List.mem_filterMap.mp hexpanded
  dsimp only at hsome
  split at hsome
  · cases hsome
  · rename_i hempty
    obtain ⟨hkey, hvalue⟩ := List.of_mem_zip hpair
    obtain ⟨front, hfront, -⟩ := @exists_withStem_eq_append ctx.tables
      (shorthandValues token.base).head? value
    refine ⟨key, hkey, front, value, hvalue, by rwa [ne_eq, ← List.isEmpty_iff], ?_, ?_⟩
    · rw [← hfront]
      exact notMem_withStem (by decide)
        (fun part hpart => (notMem_of_mem_shorthandValues hpart).2) hvalue
    · rw [← hfront]
      exact (Option.some.inj hsome).symm

/-- The states in front of a text are segments of their own. -/
theorem splitOn_statePrefix_append (states : List PseudoState) (text : Text) :
    ((states.flatMap fun state => state.name ++ [':']) ++ text).splitOn ':' =
      states.map PseudoState.name ++ text.splitOn ':' := by
  induction states with
  | nil => rfl
  | cons state rest ih =>
      rw [List.flatMap_cons, List.append_assoc, List.append_assoc, List.singleton_append,
        List.splitOn_append_cons_self_of_not_mem state.colon_not_mem_name, ih, List.map_cons,
        List.cons_append]

/-- The segments of a token of a shorthand: those of its breakpoint, the states, and the value. -/
theorem exists_splitOn_of_mem_expandShorthand? (htokens : token.expandShorthand? ctx = some tokens)
    (hexpanded : expanded ∈ tokens) :
    ∃ key ∈ ctx.breakpoints.keys, ∃ last,
      expanded.splitOn ':' =
        key.splitOn ':' ++ (token.states.map PseudoState.name ++ [last]) := by
  obtain ⟨key, hkey, front, value, -, -, hvalue, rfl⟩ :=
    exists_of_mem_expandShorthand? htokens hexpanded
  have hlast : ':' ∉ front ++ value ++ token.importance.suffix := fun hmem =>
    (List.mem_append.mp hmem).elim hvalue token.importance.colon_notMem_suffix
  refine ⟨key, hkey, front ++ value ++ token.importance.suffix, ?_⟩
  have hparts : key ++ ':' :: token.statePrefix ++ (front ++ value) ++ token.importance.suffix =
      key ++ ':' :: (token.statePrefix ++ (front ++ value ++ token.importance.suffix)) := by simp
  rw [hparts, List.splitOn_append_cons_self, statePrefix, splitOn_statePrefix_append,
    List.splitOn_eq_singleton hlast]

/-- Behind a breakpoint that is one segment, a token of a shorthand has the states it was written
with. -/
theorem states_parse_of_mem_expandShorthand? (hkeys : ∀ key ∈ ctx.breakpoints.keys, ':' ∉ key)
    (htokens : token.expandShorthand? ctx = some tokens) (hexpanded : expanded ∈ tokens) :
    (parse ctx.breakpoints expanded).states = token.states := by
  obtain ⟨key, hkey, last, hsegments⟩ :=
    exists_splitOn_of_mem_expandShorthand? htokens hexpanded
  obtain ⟨next, others, hnext⟩ : ∃ next others,
      token.states.map PseudoState.name ++ [last] = next :: others :=
    List.exists_cons_of_ne_nil (by simp)
  have hcontains : ctx.breakpoints.contains key = true := OrderedMap.contains_iff.mpr hkey
  rw [states_parse, hsegments, List.splitOn_eq_singleton (hkeys key hkey), List.singleton_append,
    hnext, ModifierWalk.ofSegments_cons_cons, if_pos (by simp [hcontains]), ← hnext,
    ModifierWalk.ofSegments_names_append (by simp) (List.cons_ne_nil last [])]
  exact List.append_nil token.states

variable {state : PseudoState}

/-- A token of a shorthand has no other states, unless its breakpoint holds one. -/
theorem mem_states_of_mem_expandShorthand?
    (hkeys : ∀ key ∈ ctx.breakpoints.keys, state.name ∉ key.splitOn ':')
    (htokens : token.expandShorthand? ctx = some tokens) (hexpanded : expanded ∈ tokens)
    (hstate : state ∈ (parse ctx.breakpoints expanded).states) : state ∈ token.states := by
  obtain ⟨key, hkey, last, hsegments⟩ :=
    exists_splitOn_of_mem_expandShorthand? htokens hexpanded
  rw [states_parse, hsegments, ← List.append_assoc] at hstate
  have hname := ModifierWalk.name_mem_dropLast hstate
  rw [List.dropLast_concat, List.mem_append] at hname
  obtain ⟨other, hother, heq⟩ := List.mem_map.mp (hname.resolve_left (hkeys key hkey))
  exact PseudoState.name_injective heq ▸ hother

/-- Moving the breakpoint to the front brings no other states, unless a breakpoint holds one. -/
theorem mem_states_of_mem_frontForm
    (hkeys : ∀ key ∈ breakpoints.keys, state.name ∉ key.splitOn ':')
    (hstate : state ∈ (parse breakpoints (frontForm breakpoints raw)).states) :
    state ∈ (parse breakpoints raw).states := by
  rcases frontForm_eq_or breakpoints raw with heq | ⟨token, key, hkey, hraw, heq⟩
  · rwa [heq] at hstate
  · have hname : breakpoints.contains state.name = false := by
      rw [← Bool.not_eq_true, OrderedMap.contains_iff]
      intro hmem
      refine hkeys state.name hmem ?_
      rw [List.splitOn_eq_singleton state.colon_not_mem_name]
      exact List.mem_singleton_self _
    -- The states come from the segments behind the breakpoint, where the walk may as well begin.
    have hbehind : ∃ other, state ∈ (ModifierWalk.ofSegments breakpoints other
        ((token ++ (Importance.split raw).2.suffix).splitOn ':')).states := by
      rw [states_parse, heq, List.append_assoc, List.cons_append,
        List.splitOn_append_cons_self] at hstate
      exact ModifierWalk.exists_mem_states_of_append
        (hkeys key (OrderedMap.contains_iff.mp hkey)) (List.splitOn_ne_nil _ _) hstate
    obtain ⟨other, hother⟩ := hbehind
    have hwithout := ModifierWalk.mem_states_none hname hother
    obtain ⟨parts, last, first, others, htoken, hmarks, hmarked⟩ :=
      Text.exists_splitOn_append ':' token (Importance.split raw).2.suffix
    obtain ⟨parts', last', first', others', htoken', -, hsuffixed⟩ :=
      Text.exists_splitOn_append ':' token ('@' :: key ++ (Importance.split raw).2.suffix)
    rw [List.splitOn_eq_singleton (Importance.colon_notMem_suffix _)] at hmarks
    obtain ⟨rfl, rfl⟩ := List.cons.inj hmarks
    obtain ⟨rfl, -⟩ := List.append_inj' (htoken'.symm.trans htoken) rfl
    rw [hmarked] at hwithout
    rw [states_parse]
    rw [hraw, List.append_assoc, hsuffixed]
    exact ModifierWalk.mem_states_of_last (List.cons_ne_nil _ _) hwithout

end ParsedToken

end UtilityCss
