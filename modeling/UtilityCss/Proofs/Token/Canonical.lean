import UtilityCss.Proofs.Token.Importance

/-!
The canonical form of a token: its breakpoint, its states, its base and its marks, in this order.
Moving the breakpoint to the front changes no choice of the walk, since behind it only states are
taken, as before; so a canonical form is read as the token that it was written from.
-/

namespace UtilityCss

variable {breakpoints : Breakpoints} {raw front : Text}

namespace Importance

/-- Two marks are read off any text; one mark, or none, only where no other mark is left. -/
theorem eq_highSpecificity_or_unmarked (raw : Text) :
    (split raw).2 = .highSpecificity ∨ Unmarked (split raw).1 := by
  unfold split
  split
  · exact Or.inl rfl
  · rename_i htwo
    refine Or.inr ?_
    split
    · rename_i body hone
      intro hlast
      obtain ⟨rest, rfl⟩ := List.getLast?_eq_some_iff.mp hlast
      refine Text.before?_eq_none_iff.mp htwo rest ?_
      simpa [suffix] using Text.before?_eq_some_iff.mp hone
    · rename_i hnone
      intro hlast
      obtain ⟨rest, hrest⟩ := List.getLast?_eq_some_iff.mp hlast
      exact Text.before?_eq_none_iff.mp hnone rest hrest

/-- The marks that are read back behind a text. -/
theorem split_append_suffix_iff {body : Text} {importance : Importance} :
    split (body ++ importance.suffix) = (body, importance) ↔
      importance = .highSpecificity ∨ Unmarked body := by
  constructor
  · intro hsplit
    have hread := eq_highSpecificity_or_unmarked (body ++ importance.suffix)
    rwa [hsplit] at hread
  · rintro (rfl | hbody)
    · unfold split
      rw [Text.before?_eq_some_iff.mpr rfl]
    · exact split_append_suffix hbody importance

/-- A text in front that does not end in a mark makes no difference to the marks. -/
theorem split_unmarked_append (hfront : Unmarked front) (text : Text) :
    split (front ++ text) = (front ++ (split text).1, (split text).2) := by
  have hmarks : (split text).2 = .highSpecificity ∨ Unmarked (front ++ (split text).1) := by
    refine (eq_highSpecificity_or_unmarked text).imp_right fun hbody => ?_
    by_cases hempty : (split text).1 = []
    · rwa [hempty, List.append_nil]
    · exact hbody.append hempty front
  have hsplit := split_append_suffix_iff.mpr hmarks
  rwa [List.append_assoc, split_append] at hsplit

end Importance

namespace ModifierWalk

variable {breakpoint : Option Text} {segments rest more : List Text} {segment next key : Text}
  {states : List PseudoState} {state : PseudoState}

/-- The breakpoint of a walk is the one that it began with, or one of its segments. -/
theorem contains_breakpoint_ofSegments
    (hkey : (ofSegments breakpoints breakpoint segments).breakpoint = some key) :
    breakpoint = some key ∨ breakpoints.contains key = true ∧ key ∈ segments := by
  fun_induction ofSegments breakpoints breakpoint segments with
  | case1 _ segment next rest htaken ih =>
      rw [Bool.and_eq_true] at htaken
      rcases ih hkey with heq | ⟨hcontains, hmem⟩
      · cases heq
        exact Or.inr ⟨htaken.2, List.mem_cons_self⟩
      · exact Or.inr ⟨hcontains, List.mem_cons_of_mem _ hmem⟩
  | case2 _ segment next rest _ state _ walk ih =>
      exact (ih hkey).imp_right (And.imp_right (List.mem_cons_of_mem _))
  | case3 => exact Or.inl hkey
  | case4 => exact Or.inl hkey

/-- A walk that ends without a breakpoint took no segment that is one. -/
theorem contains_name_ofSegments
    (hnone : (ofSegments breakpoints breakpoint segments).breakpoint = none) :
    breakpoint = none ∧ ∀ state ∈ (ofSegments breakpoints breakpoint segments).states,
      breakpoints.contains state.name = false := by
  fun_induction ofSegments breakpoints breakpoint segments with
  | case1 _ segment next rest _ ih => exact absurd (ih hnone).1 (Option.some_ne_none segment)
  | case2 breakpoint segment next rest htaken state hstate walk ih =>
      obtain ⟨hbreakpoint, hlater⟩ := ih hnone
      refine ⟨hbreakpoint, fun other hother => ?_⟩
      rcases List.mem_cons.mp hother with rfl | hmem
      · rw [PseudoState.ofName?_eq_some_iff.mp hstate]
        simpa [hbreakpoint] using htaken
      · exact hlater other hmem
  | case3 => exact ⟨hnone, by simp⟩
  | case4 => exact ⟨hnone, by simp⟩

/-- The segment that ends a walk names no state, and no breakpoint that could still be taken. -/
theorem rest_ofSegments_stops
    (hrest : (ofSegments breakpoints breakpoint segments).rest = segment :: next :: rest) :
    PseudoState.ofName? segment = none ∧
      ((ofSegments breakpoints breakpoint segments).breakpoint = none →
        breakpoints.contains segment = false) := by
  fun_induction ofSegments breakpoints breakpoint segments with
  | case1 _ _ _ _ _ ih => exact ih hrest
  | case2 _ _ _ _ _ _ _ walk ih => exact ih hrest
  | case3 breakpoint _ _ _ htaken hstate =>
      cases hrest
      refine ⟨hstate, fun (hnone : breakpoint = none) => ?_⟩
      simpa [hnone] using htaken
  | case4 breakpoint segments hshort => exact absurd hrest (hshort _ _ _)

theorem rest_ofSegments_ne_nil (hne : segments ≠ []) :
    (ofSegments breakpoints breakpoint segments).rest ≠ [] := by
  fun_induction ofSegments breakpoints breakpoint segments with
  | case1 _ _ _ _ _ ih => exact ih (List.cons_ne_nil _ _)
  | case2 _ _ _ _ _ _ _ walk ih => exact ih (List.cons_ne_nil _ _)
  | case3 => exact List.cons_ne_nil _ _
  | case4 => exact hne

/-- Behind a breakpoint the segments of a walk are its states and what is left. -/
theorem segments_eq_of_some (hsome : breakpoint = some key) :
    (ofSegments breakpoints breakpoint segments).breakpoint = some key ∧
      segments = (ofSegments breakpoints breakpoint segments).states.map PseudoState.name
        ++ (ofSegments breakpoints breakpoint segments).rest := by
  fun_induction ofSegments breakpoints breakpoint segments with
  | case1 _ _ _ _ htaken _ => simp [hsome] at htaken
  | case2 _ _ _ _ _ state hstate walk ih =>
      obtain ⟨hkey, hsegments⟩ := ih hsome
      refine ⟨hkey, ?_⟩
      rw [List.map_cons, List.cons_append, PseudoState.ofName?_eq_some_iff.mp hstate, ← hsegments]
  | case3 => exact ⟨hsome, rfl⟩
  | case4 => exact ⟨hsome, rfl⟩

/-- The segments of a walk are its states and what is left, and somewhere among the states its
breakpoint. -/
theorem exists_segments_eq (breakpoints : Breakpoints) (segments : List Text) :
    ∃ before after,
      (ofSegments breakpoints none segments).states = before ++ after ∧
      segments = before.map PseudoState.name
        ++ ((ofSegments breakpoints none segments).breakpoint.toList
        ++ (after.map PseudoState.name ++ (ofSegments breakpoints none segments).rest)) := by
  suffices hnone : ∀ breakpoint, breakpoint = none → ∃ before after,
      (ofSegments breakpoints breakpoint segments).states = before ++ after ∧
      segments = before.map PseudoState.name
        ++ ((ofSegments breakpoints breakpoint segments).breakpoint.toList
        ++ (after.map PseudoState.name ++ (ofSegments breakpoints breakpoint segments).rest)) from
    hnone none rfl
  intro breakpoint hnone
  fun_induction ofSegments breakpoints breakpoint segments with
  | case1 _ segment next rest _ _ =>
      obtain ⟨hkey, hsegments⟩ := @segments_eq_of_some breakpoints _ (next :: rest) segment rfl
      refine ⟨[], _, rfl, ?_⟩
      rw [hkey, List.map_nil, List.nil_append, ← hsegments]
      rfl
  | case2 _ _ _ _ _ state hstate walk ih =>
      obtain ⟨before, after, hstates, hsegments⟩ := ih hnone
      refine ⟨state :: before, after, by rw [hstates, List.cons_append], ?_⟩
      rw [List.map_cons, List.cons_append, PseudoState.ofName?_eq_some_iff.mp hstate]
      exact congrArg _ hsegments
  | case3 => exact ⟨[], [], rfl, by rw [hnone]; rfl⟩
  | case4 => exact ⟨[], [], rfl, by rw [hnone]; rfl⟩

/-- A walk takes nothing where the first segment stops it. -/
theorem ofSegments_of_stops
    (hstops : ∀ segment next rest, segments = segment :: next :: rest →
      PseudoState.ofName? segment = none ∧
        (breakpoint = none → breakpoints.contains segment = false)) :
    ofSegments breakpoints breakpoint segments = ⟨breakpoint, [], segments⟩ := by
  fun_cases ofSegments breakpoints breakpoint segments with
  | case1 _ segment next rest htaken =>
      rw [Bool.and_eq_true, Option.isNone_iff_eq_none] at htaken
      rw [(hstops segment next rest rfl).2 htaken.1] at htaken
      cases htaken.2
  | case2 _ segment next rest _ state hstate =>
      rw [(hstops segment next rest rfl).1] at hstate
      cases hstate
  | case3 => rfl
  | case4 => rfl

end ModifierWalk

namespace ParsedToken

variable {token : ParsedToken}

/-- A parsed token whose parts, written one behind the other, are what the grammar reads there. -/
structure IsCanonical (breakpoints : Breakpoints) (token : ParsedToken) : Prop where
  contains : ∀ key ∈ token.breakpoint, breakpoints.contains key = true
  colon_notMem : ∀ key ∈ token.breakpoint, ':' ∉ key
  /-- Without a breakpoint, no state is taken for one. -/
  states : token.breakpoint = none →
    ∀ state ∈ token.states, breakpoints.contains state.name = false
  /-- The base begins with nothing that the walk would take. -/
  base : ∀ segment rest, token.base = segment ++ ':' :: rest → ':' ∉ segment →
    PseudoState.ofName? segment = none ∧
      (token.breakpoint = none → breakpoints.contains segment = false)
  marks : token.importance = .highSpecificity ∨ Unmarked token.base

/-- The breakpoint and the states in front of a base, each with its colon. -/
def modifiers (token : ParsedToken) : Text :=
  token.breakpoint.elim [] (· ++ [':']) ++ token.statePrefix

theorem render_eq (token : ParsedToken) :
    token.render = token.modifiers ++ token.base ++ token.importance.suffix := by
  obtain ⟨breakpoint, states, importance, base⟩ := token
  cases breakpoint <;> rfl

/-- The modifiers end in a colon, if there are any. -/
theorem unmarked_modifiers (token : ParsedToken) : Unmarked token.modifiers := by
  have hcolon : ∀ front : Text, Unmarked (front ++ [':']) := fun front => by
    rw [Unmarked, List.getLast?_concat]
    decide
  obtain ⟨breakpoint, states, importance, base⟩ := token
  rcases List.eq_nil_or_concat states with rfl | ⟨others, final, rfl⟩
  · cases breakpoint with
    | none => exact unmarked_of_notMem List.not_mem_nil
    | some key =>
        rw [modifiers, statePrefix, List.flatMap_nil, List.append_nil]
        exact hcolon key
  · rw [modifiers, statePrefix, List.concat_eq_append, List.flatMap_append, List.flatMap_singleton,
      ← List.append_assoc, ← List.append_assoc]
    exact hcolon _

/-- The modifiers are segments of their own. -/
theorem splitOn_modifiers_append (hkey : ∀ key ∈ token.breakpoint, ':' ∉ key) (text : Text) :
    (token.modifiers ++ text).splitOn ':' =
      token.breakpoint.toList ++ (token.states.map PseudoState.name ++ text.splitOn ':') := by
  obtain ⟨breakpoint, states, importance, base⟩ := token
  cases breakpoint with
  | none => exact splitOn_statePrefix_append states text
  | some key =>
      rw [modifiers, Option.elim_some, List.append_assoc, List.append_assoc, List.singleton_append,
        List.splitOn_append_cons_self_of_not_mem (hkey key rfl), statePrefix,
        splitOn_statePrefix_append]
      rfl

/-- The walk over the segments of a canonical form takes the modifiers and leaves the base. -/
theorem IsCanonical.ofSegments_eq (htoken : IsCanonical breakpoints token) :
    ModifierWalk.ofSegments breakpoints none ((token.modifiers ++ token.base).splitOn ':') =
      ⟨token.breakpoint, token.states, token.base.splitOn ':'⟩ := by
  have hbase : ModifierWalk.ofSegments breakpoints token.breakpoint (token.base.splitOn ':') =
      ⟨token.breakpoint, [], token.base.splitOn ':'⟩ := by
    refine ModifierWalk.ofSegments_of_stops fun segment next rest hsplit => ?_
    obtain ⟨hsegment, behind, hbehind⟩ := Text.exists_of_splitOn_cons_cons hsplit
    exact htoken.base segment behind hbehind hsegment
  have hstates : ModifierWalk.ofSegments breakpoints token.breakpoint
      (token.states.map PseudoState.name ++ token.base.splitOn ':') =
        ⟨token.breakpoint, token.states, token.base.splitOn ':'⟩ := by
    rw [ModifierWalk.ofSegments_names_append htoken.states (List.splitOn_ne_nil _ _), hbase,
      List.append_nil]
  rw [splitOn_modifiers_append htoken.colon_notMem]
  cases hkey : token.breakpoint with
  | none => rwa [hkey] at hstates
  | some key =>
      rw [hkey] at hstates
      obtain ⟨next, others, hnext⟩ := List.exists_cons_of_ne_nil
        (List.append_ne_nil_of_right_ne_nil (token.states.map PseudoState.name)
          (List.splitOn_ne_nil ':' token.base))
      rw [Option.toList_some, List.singleton_append, hnext, ModifierWalk.ofSegments_cons_cons,
        if_pos (by simp [htoken.contains key hkey]), ← hnext, hstates]

theorem IsCanonical.parse_render (htoken : IsCanonical breakpoints token) :
    parse breakpoints token.render = token := by
  have hmarks : Importance.split (token.base ++ token.importance.suffix) =
      (token.base, token.importance) :=
    Importance.split_append_suffix_iff.mpr htoken.marks
  rw [render_eq, List.append_assoc, parse,
    Importance.split_unmarked_append token.unmarked_modifiers, hmarks]
  dsimp only
  rw [htoken.ofSegments_eq, List.intercalate_splitOn]

/-- What is left of the segments of a token is its base. -/
theorem splitOn_base_parse (breakpoints : Breakpoints) (raw : Text) :
    (parse breakpoints raw).base.splitOn ':' = (ModifierWalk.ofSegments breakpoints none
      ((Importance.split raw).1.splitOn ':')).rest := by
  refine List.splitOn_intercalate ':' (fun part hpart => ?_)
    (ModifierWalk.rest_ofSegments_ne_nil (List.splitOn_ne_nil _ _))
  exact Text.notMem_of_mem_splitOn ((ModifierWalk.rest_suffix _ _ _).subset hpart)

/-- Whatever is read is canonical. -/
theorem isCanonical_parse (breakpoints : Breakpoints) (raw : Text) :
    IsCanonical breakpoints (parse breakpoints raw) where
  contains key hkey :=
    ((ModifierWalk.contains_breakpoint_ofSegments hkey).resolve_left (by simp)).1
  colon_notMem key hkey := Text.notMem_of_mem_splitOn
    ((ModifierWalk.contains_breakpoint_ofSegments hkey).resolve_left (by simp)).2
  states hnone := (ModifierWalk.contains_name_ofSegments hnone).2
  base segment rest hbase hsegment := by
    obtain ⟨next, others, hnext⟩ := List.exists_cons_of_ne_nil (List.splitOn_ne_nil ':' rest)
    have hrest := splitOn_base_parse breakpoints raw
    rw [hbase, List.splitOn_append_cons_self_of_not_mem hsegment, hnext] at hrest
    exact ModifierWalk.rest_ofSegments_stops hrest.symm
  marks := by
    refine (Importance.eq_highSpecificity_or_unmarked raw).imp_right fun hbody => ?_
    obtain ⟨front, hfront⟩ := base_parse_suffix breakpoints raw
    intro hlast
    refine hbody ?_
    rw [← hfront, List.getLast?_append, hlast]
    rfl

/-- The tokens that their written form is read as. -/
theorem parse_render_iff : parse breakpoints token.render = token ↔ IsCanonical breakpoints token :=
  ⟨fun hread => hread ▸ isCanonical_parse breakpoints token.render, IsCanonical.parse_render⟩

/-- A token and its canonical form are read the same in all parts, and they only differ in the place
of the breakpoint, which may stand anywhere among the states. -/
theorem parse_render_parse (breakpoints : Breakpoints) (raw : Text) :
    let token := parse breakpoints raw
    parse breakpoints token.render = token ∧
      ∃ before after, token.states = before ++ after ∧
        raw = ({ states := before } : ParsedToken).modifiers
          ++ ({ breakpoint := token.breakpoint, states := after } : ParsedToken).modifiers
          ++ token.base ++ token.importance.suffix := by
  intro token
  have htoken : IsCanonical breakpoints token := isCanonical_parse breakpoints raw
  refine ⟨htoken.parse_render, ?_⟩
  obtain ⟨before, after, hstates, hsegments⟩ :=
    ModifierWalk.exists_segments_eq breakpoints ((Importance.split raw).1.splitOn ':')
  rw [← splitOn_base_parse] at hsegments
  refine ⟨before, after, hstates, ?_⟩
  -- Both texts have the same segments, and a text is its segments joined.
  have hparts : (({ states := before } : ParsedToken).modifiers
      ++ (({ breakpoint := token.breakpoint, states := after } : ParsedToken).modifiers
      ++ token.base)).splitOn ':' = (Importance.split raw).1.splitOn ':' := by
    rw [splitOn_modifiers_append (by simp),
      @splitOn_modifiers_append { breakpoint := token.breakpoint, states := after }
        htoken.colon_notMem]
    exact hsegments.symm
  have hbody := congrArg ([':'].intercalate ·) hparts
  simp only [List.intercalate_splitOn] at hbody
  rw [List.append_assoc _ _ token.base, hbody]
  exact (Importance.split_append raw).symm

end ParsedToken

end UtilityCss
