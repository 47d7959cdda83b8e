import Mathlib.Data.List.Forall2
import UtilityCss.Proofs.Token.Shorthand
import UtilityCss.Rule

/-!
The readings of a token.  Every rule of a token comes from one parsed token: the front form, or one
of the tokens of its shorthand.  Those are written with the states of the front form and read again,
so their states are the same as long as no breakpoint can be mistaken for a state.
-/

namespace UtilityCss

namespace Rule

variable {ctx : Context} {raw : Text} {rule : Rule} {rules : List Rule} {token reading : ParsedToken}

/-- The parsed tokens that the rules of a token are read from: its front form, or the tokens of a
fitting shorthand. -/
def readings (ctx : Context) (raw : Text) : List ParsedToken :=
  let token := ParsedToken.parse ctx.breakpoints (frontForm ctx.breakpoints raw)
  match token.expandShorthand? ctx with
  | some tokens => tokens.map (ParsedToken.parse ctx.breakpoints)
  | none => [token]

/-- The at-rule that all rules of a token are inside: the breakpoint of its front form. -/
def outerAtRule (ctx : Context) (raw : Text) : Option Text :=
  let token := ParsedToken.parse ctx.breakpoints (frontForm ctx.breakpoints raw)
  (token.breakpoint.bind ctx.breakpoints.get?).map mediaRule

/-- The rule of a parsed token, from what its base declares. -/
def ofResolution (ctx : Context) (token : ParsedToken) (resolution : Resolution) : Rule :=
  let importance := effectiveImportance token.importance resolution.escalate
  let explicit := resolution.declarations.filter fun d => !d.overridable
  let declarations :=
    if importance = .important then explicit.map Declaration.makeImportant else explicit
  { atRules := ((token.breakpoint.bind ctx.breakpoints.get?).map mediaRule).toList
    ancestor := ancestorOf importance (token.hasState .dark)
    suffix := suffixOf token.states
    declarations := declarations.map Declaration.render
    fallbacks := (resolution.declarations.filter Declaration.overridable).map Declaration.render }

/-- A parsed token has a rule where its base declares something. -/
theorem ofParsed?_eq_some_iff :
    ofParsed? ctx token = some rule ↔
      ∃ resolution, Resolution.ofBase? ctx token.base = some resolution ∧
        resolution.declarations ≠ [] ∧ ofResolution ctx token resolution = rule := by
  simp only [ofParsed?, bind, Option.bind_eq_some_iff]
  refine exists_congr fun resolution => and_congr_right fun _ => ?_
  split
  · rename_i hempty
    exact iff_of_false (Option.some_ne_none rule).symm fun hrule =>
      hrule.1 (List.isEmpty_iff.mp hempty)
  · rename_i hne
    rw [List.isEmpty_iff] at hne
    rw [Option.some.injEq]
    exact (and_iff_right hne).symm

theorem atRules_ofParsed? (hrule : ofParsed? ctx token = some rule) :
    rule.atRules = ((token.breakpoint.bind ctx.breakpoints.get?).map mediaRule).toList := by
  obtain ⟨resolution, -, -, rfl⟩ := ofParsed?_eq_some_iff.mp hrule
  rfl

/-- A rule stands for the states of its reading. -/
theorem suffix_ofParsed? (hrule : ofParsed? ctx token = some rule) :
    rule.suffix = suffixOf token.states := by
  obtain ⟨resolution, -, -, rfl⟩ := ofParsed?_eq_some_iff.mp hrule
  rfl

/-- The rule that a token has by itself is inside its breakpoint already. -/
theorem under_ofParsed? (hrule : ofParsed? ctx token = some rule) :
    rule.under ((token.breakpoint.bind ctx.breakpoints.get?).map mediaRule) = rule := by
  have hatRules := atRules_ofParsed? hrule
  cases hmedia : (token.breakpoint.bind ctx.breakpoints.get?).map mediaRule with
  | none => rfl
  | some media =>
      rw [hmedia] at hatRules
      rw [under, if_pos (by rw [hatRules, Option.toList_some, List.head?_cons])]

/-- The rules of a token are those of its readings, in order. -/
theorem ofFrontForm_eq_filterMap (ctx : Context) (raw : Text) :
    ofFrontForm ctx (frontForm ctx.breakpoints raw) =
      (readings ctx raw).filterMap fun reading =>
        (ofParsed? ctx reading).map (under (outerAtRule ctx raw)) := by
  unfold ofFrontForm readings
  dsimp only
  cases (ParsedToken.parse ctx.breakpoints (frontForm ctx.breakpoints raw)).expandShorthand? ctx with
  | some tokens =>
      rw [List.filterMap_map]
      rfl
  | none =>
      rw [List.filterMap_cons, List.filterMap_nil]
      cases hrule : ofParsed? ctx
          (ParsedToken.parse ctx.breakpoints (frontForm ctx.breakpoints raw)) with
      | none => rfl
      | some rule =>
          rw [Option.map_some, outerAtRule, under_ofParsed? hrule]
          rfl

theorem ofToken?_eq_match (ctx : Context) (raw : Text) :
    ofToken? ctx raw =
      match ofFrontForm ctx (frontForm ctx.breakpoints raw) with
      | [] => none
      | rules => some rules := by
  unfold ofToken? frontForm
  rfl

theorem ofToken?_eq_some_iff :
    ofToken? ctx raw = some rules ↔
      rules ≠ [] ∧ ofFrontForm ctx (frontForm ctx.breakpoints raw) = rules := by
  rw [ofToken?_eq_match]
  cases ofFrontForm ctx (frontForm ctx.breakpoints raw) with
  | nil => simp [eq_comm]
  | cons rule more =>
      simp only [Option.some.injEq]
      exact ⟨fun heq => ⟨heq ▸ List.cons_ne_nil rule more, heq⟩, And.right⟩

theorem ofToken?_eq_none_iff :
    ofToken? ctx raw = none ↔ ofFrontForm ctx (frontForm ctx.breakpoints raw) = [] := by
  rw [ofToken?_eq_match]
  cases ofFrontForm ctx (frontForm ctx.breakpoints raw) with
  | nil => exact iff_of_true rfl rfl
  | cons rule more => exact iff_of_false (Option.some_ne_none _) (List.cons_ne_nil rule more)

/-- One more at-rule around a rule leaves everything else as it is. -/
theorem under_eq (outer : Option Text) (rule : Rule) :
    rule.under outer = { rule with atRules := (rule.under outer).atRules } := by
  unfold under
  split
  · split <;> rfl
  · rfl

theorem suffix_under (outer : Option Text) (rule : Rule) :
    (rule.under outer).suffix = rule.suffix := by
  rw [under_eq]

theorem ancestor_under (outer : Option Text) (rule : Rule) :
    (rule.under outer).ancestor = rule.ancestor := by
  rw [under_eq]

theorem fallbacks_under (outer : Option Text) (rule : Rule) :
    (rule.under outer).fallbacks = rule.fallbacks := by
  rw [under_eq]

/-- What a filtered list maps to agrees with the list, place by place, where each image does. -/
theorem forall₂_filterMap {α β : Type} {f : α → Option β} {R : β → α → Prop} {l : List α}
    (hR : ∀ a b, f a = some b → R b a) :
    List.Forall₂ R (l.filterMap f) (l.filter fun a => (f a).isSome) := by
  induction l with
  | nil => exact .nil
  | cons a rest ih =>
      cases ha : f a with
      | none => simpa [ha] using ih
      | some b =>
          rw [List.filterMap_cons_some ha, List.filter_cons_of_pos (by simp [ha])]
          exact .cons (hR a b ha) ih

/-- Each rule of a token goes with the reading that it comes from. -/
theorem forall₂_readings {R : Rule → ParsedToken → Prop}
    (hR : ∀ reading rule, ofParsed? ctx reading = some rule →
      R (rule.under (outerAtRule ctx raw)) reading)
    (hrules : ofToken? ctx raw = some rules) :
    List.Forall₂ R rules
      ((readings ctx raw).filter fun reading => (ofParsed? ctx reading).isSome) := by
  rw [← (ofToken?_eq_some_iff.mp hrules).2, ofFrontForm_eq_filterMap]
  have hsome : (fun reading => (ofParsed? ctx reading).isSome) = fun reading =>
      ((ofParsed? ctx reading).map (under (outerAtRule ctx raw))).isSome := by
    funext reading
    rw [Option.isSome_map]
  rw [hsome]
  refine forall₂_filterMap fun reading rule hmap => ?_
  obtain ⟨inner, hinner, rfl⟩ := Option.map_eq_some_iff.mp hmap
  exact hR reading inner hinner

theorem exists_reading_of_mem (hrules : ofToken? ctx raw = some rules) (hrule : rule ∈ rules) :
    ∃ reading ∈ readings ctx raw, ∃ inner, ofParsed? ctx reading = some inner ∧
      inner.under (outerAtRule ctx raw) = rule := by
  rw [← (ofToken?_eq_some_iff.mp hrules).2, ofFrontForm_eq_filterMap] at hrule
  obtain ⟨reading, hreading, hinner⟩ := List.mem_filterMap.mp hrule
  exact ⟨reading, hreading, Option.map_eq_some_iff.mp hinner⟩

/-- A token has a rule exactly when one of its readings has. -/
theorem isSome_ofToken? (ctx : Context) (raw : Text) :
    (ofToken? ctx raw).isSome =
      (readings ctx raw).any fun reading => (ofParsed? ctx reading).isSome := by
  rw [Bool.eq_iff_iff, Option.isSome_iff_exists, List.any_eq_true]
  constructor
  · rintro ⟨rules, hrules⟩
    obtain ⟨rule, hrule⟩ := List.exists_mem_of_ne_nil rules (ofToken?_eq_some_iff.mp hrules).1
    obtain ⟨reading, hreading, inner, hinner, -⟩ := exists_reading_of_mem hrules hrule
    exact ⟨reading, hreading, by rw [hinner, Option.isSome_some]⟩
  · rintro ⟨reading, hreading, hsome⟩
    obtain ⟨inner, hinner⟩ := Option.isSome_iff_exists.mp hsome
    refine ⟨_, ofToken?_eq_some_iff.mpr ⟨?_, rfl⟩⟩
    rw [ofFrontForm_eq_filterMap]
    exact List.ne_nil_of_mem (List.mem_filterMap.mpr ⟨reading, hreading, by rw [hinner, Option.map_some]⟩)

/-- A token of a shorthand names the states of the shorthand behind its breakpoint. -/
theorem states_of_mem_readings (hkeys : ∀ key ∈ ctx.breakpoints.keys, ':' ∉ key)
    (hreading : reading ∈ readings ctx raw) :
    reading.states =
      (ParsedToken.parse ctx.breakpoints (frontForm ctx.breakpoints raw)).states := by
  unfold readings at hreading
  dsimp only at hreading
  split at hreading
  · rename_i tokens htokens
    obtain ⟨expanded, hexpanded, rfl⟩ := List.mem_map.mp hreading
    exact ParsedToken.states_parse_of_mem_expandShorthand? hkeys htokens hexpanded
  · rw [List.mem_singleton.mp hreading]

/-- A reading has no states that the token lacks, unless a breakpoint holds one. -/
theorem mem_states_of_mem_readings {state : PseudoState}
    (hkeys : ∀ key ∈ ctx.breakpoints.keys, state.name ∉ key.splitOn ':')
    (hreading : reading ∈ readings ctx raw) (hstate : state ∈ reading.states) :
    state ∈ (ParsedToken.parse ctx.breakpoints raw).states := by
  refine ParsedToken.mem_states_of_mem_frontForm hkeys ?_
  unfold readings at hreading
  dsimp only at hreading
  split at hreading
  · rename_i tokens htokens
    obtain ⟨expanded, hexpanded, rfl⟩ := List.mem_map.mp hreading
    exact ParsedToken.mem_states_of_mem_expandShorthand? hkeys htokens hexpanded hstate
  · rwa [List.mem_singleton.mp hreading] at hstate

end Rule

end UtilityCss
