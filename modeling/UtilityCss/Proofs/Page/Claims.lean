import UtilityCss.Proofs.Page.Conditions

/-!
Who claims the inline properties of an element.  A property is set exactly while some active
condition claims it, and its value is that of a claimant; only properties that are left over from
earlier need no claimant.  Every step keeps this, so it does not matter that a loop which ends
conditions meets some that are still marked active.
-/

namespace UtilityCss

variable {conditions : OrderedMap Text Condition} {style : Text → Option Text}
  {token property value : Text} {condition : Condition}

namespace Page

theorem exists_of_claimedValue? (hvalue : claimedValue? conditions property = some value) :
    ∃ token condition, conditions.get? token = some condition ∧ condition.active = true ∧
      condition.applied.get? property = some value := by
  have hmem := List.mem_of_getLast? hvalue
  obtain ⟨condition, hcondition, hclaim⟩ := List.mem_filterMap.mp hmem
  obtain ⟨token, htoken⟩ := OrderedMap.mem_values_iff.mp hcondition
  split at hclaim
  · rename_i hactive
    exact ⟨token, condition, htoken, hactive, hclaim⟩
  · cases hclaim

theorem claimedValue?_isSome (hcondition : conditions.get? token = some condition)
    (hactive : condition.active = true) (hclaim : condition.applied.get? property = some value) :
    ∃ claimed, claimedValue? conditions property = some claimed := by
  have hmem : condition ∈ conditions.values := OrderedMap.mem_values_iff.mpr ⟨token, hcondition⟩
  have hne : (conditions.values.filterMap fun condition =>
      if condition.active then condition.applied.get? property else none) ≠ [] := by
    intro hnil
    have hnone := List.filterMap_eq_nil_iff.mp hnil condition hmem
    rw [if_pos hactive, hclaim] at hnone
    cases hnone
  exact ⟨_, List.getLast?_eq_some_getLast hne⟩

end Page

/-- The inline style of an element is what its active conditions claim. -/
structure Claims (conditions : OrderedMap Text Condition) (style : Text → Option Text) : Prop where
  applied_eq_empty : ∀ {token condition}, conditions.get? token = some condition →
    condition.active = false → condition.applied = .empty
  claimed : ∀ {property value}, style property = some value →
    ∃ token condition, conditions.get? token = some condition ∧ condition.active = true ∧
      condition.applied.get? property = some value
  present : ∀ {token condition property value}, conditions.get? token = some condition →
    condition.active = true → condition.applied.get? property = some value →
      ∃ set, style property = some set

/-- The inline style of an element is what its active conditions claim, apart from properties that
are left over. -/
structure ClaimsBut (leftover : Text → Prop) (conditions : OrderedMap Text Condition)
    (style : Text → Option Text) : Prop where
  applied_eq_empty : ∀ {token condition}, conditions.get? token = some condition →
    condition.active = false → condition.applied = .empty
  claimed : ∀ {property value}, style property = some value →
    (∃ token condition, conditions.get? token = some condition ∧ condition.active = true ∧
      condition.applied.get? property = some value) ∨ leftover property
  present : ∀ {token condition property value}, conditions.get? token = some condition →
    condition.active = true → condition.applied.get? property = some value →
      ∃ set, style property = some set

theorem claims_iff : Claims conditions style ↔ ClaimsBut (fun _ => False) conditions style := by
  constructor
  · intro hclaims
    exact ⟨hclaims.applied_eq_empty, fun hvalue => Or.inl (hclaims.claimed hvalue),
      hclaims.present⟩
  · intro hclaims
    exact ⟨hclaims.applied_eq_empty, fun hvalue => (hclaims.claimed hvalue).resolve_right id,
      hclaims.present⟩

namespace ClaimsBut

variable {leftover : Text → Prop}

/-- Only what is set can be left over. -/
theorem mono {fewer : Text → Prop} (hclaims : ClaimsBut leftover conditions style)
    (hfewer : ∀ {property value}, style property = some value → leftover property →
      fewer property) : ClaimsBut fewer conditions style where
  applied_eq_empty := hclaims.applied_eq_empty
  claimed hvalue := (hclaims.claimed hvalue).imp_right (hfewer hvalue)
  present := hclaims.present

/-- An element without conditions claims nothing, so all of its style is left over. -/
theorem of_no_conditions (hleftover : ∀ {property value}, style property = some value →
    leftover property) : ClaimsBut leftover .empty style where
  applied_eq_empty hcondition := by cases hcondition
  claimed hvalue := Or.inr (hleftover hvalue)
  present hcondition := by cases hcondition

/-- A condition that ends or goes away hands each of its properties to a claimant that is left. -/
theorem release {remaining : OrderedMap Text Condition}
    (hclaims : ClaimsBut leftover conditions style)
    (hcondition : conditions.get? token = some condition)
    (hother : ∀ other, other ≠ token → remaining.get? other = conditions.get? other)
    (htoken : ∀ left, remaining.get? token = some left →
      left.active = false ∧ left.applied = .empty) :
    ClaimsBut leftover remaining fun property =>
      if property ∈ condition.applied.keys then Page.claimedValue? remaining property
      else style property where
  applied_eq_empty {probe left} hleft hactive := by
    by_cases hprobe : probe = token
    · subst hprobe
      exact (htoken left hleft).2
    · rw [hother probe hprobe] at hleft
      exact hclaims.applied_eq_empty hleft hactive
  claimed {property value} hvalue := by
    split at hvalue
    · exact Or.inl (Page.exists_of_claimedValue? hvalue)
    · rename_i hunclaimed
      rcases hclaims.claimed hvalue with ⟨probe, claimant, hclaimant, hactive, hclaim⟩ | hleftover
      · have hprobe : probe ≠ token := by
          rintro rfl
          rw [hcondition, Option.some.injEq] at hclaimant
          subst hclaimant
          exact hunclaimed (OrderedMap.mem_keys_iff.mpr ⟨value, hclaim⟩)
        exact Or.inl ⟨probe, claimant, (hother probe hprobe).trans hclaimant, hactive, hclaim⟩
      · exact Or.inr hleftover
  present {probe claimant property value} hclaimant hactive hclaim := by
    split
    · exact Page.claimedValue?_isSome hclaimant hactive hclaim
    · by_cases hprobe : probe = token
      · subst hprobe
        rw [(htoken claimant hclaimant).1] at hactive
        cases hactive
      · rw [hother probe hprobe] at hclaimant
        exact hclaims.present hclaimant hactive hclaim

/-- A condition that begins claims what it writes. -/
theorem begin (hclaims : ClaimsBut leftover conditions style)
    (hcondition : conditions.get? token = some condition) (hinactive : condition.active = false)
    (payload : InlineStyle) :
    ClaimsBut leftover (conditions.insert token (condition.begun payload)) fun property =>
      (payload.get? property).or (style property) where
  applied_eq_empty {probe left} hleft hactive := by
    rw [OrderedMap.get?_insert] at hleft
    split at hleft
    · cases hleft
      cases hactive
    · exact hclaims.applied_eq_empty hleft hactive
  claimed {property value} hvalue := by
    cases hpayload : payload.get? property with
    | some written =>
        rw [hpayload, Option.some_or] at hvalue
        cases hvalue
        refine Or.inl ⟨token, condition.begun payload, ?_, rfl, hpayload⟩
        rw [OrderedMap.get?_insert, if_pos rfl]
    | none =>
        rw [hpayload, Option.none_or] at hvalue
        rcases hclaims.claimed hvalue with ⟨probe, claimant, hclaimant, hactive, hclaim⟩ | hleftover
        · have hprobe : probe ≠ token := by
            rintro rfl
            rw [hcondition, Option.some.injEq] at hclaimant
            subst hclaimant
            rw [hinactive] at hactive
            cases hactive
          refine Or.inl ⟨probe, claimant, ?_, hactive, hclaim⟩
          rw [OrderedMap.get?_insert, if_neg hprobe, hclaimant]
        · exact Or.inr hleftover
  present {probe claimant property value} hclaimant hactive hclaim := by
    rw [OrderedMap.get?_insert] at hclaimant
    split at hclaimant
    · cases hclaimant
      exact ⟨value, by rw [show payload.get? property = some value from hclaim]; rfl⟩
    · obtain ⟨set, hset⟩ := hclaims.present hclaimant hactive hclaim
      cases payload.get? property with
      | some written => exact ⟨written, rfl⟩
      | none => exact ⟨set, hset⟩

/-- A new condition claims nothing yet. -/
theorem insertNew (hclaims : ClaimsBut leftover conditions style) (token : Text)
    (query : ContainerToken) :
    ClaimsBut leftover (conditions.insertNew token { token := query }) style where
  applied_eq_empty {probe left} hleft hactive := by
    rw [OrderedMap.get?_insertNew] at hleft
    split at hleft
    · rw [Option.some.injEq] at hleft
      cases hold : conditions.get? token with
      | some condition =>
          rw [hold, Option.getD_some] at hleft
          subst hleft
          exact hclaims.applied_eq_empty hold hactive
      | none =>
          rw [hold, Option.getD_none] at hleft
          subst hleft
          rfl
    · exact hclaims.applied_eq_empty hleft hactive
  claimed {property value} hvalue := by
    refine (hclaims.claimed hvalue).imp_left ?_
    rintro ⟨probe, claimant, hclaimant, hactive, hclaim⟩
    refine ⟨probe, claimant, ?_, hactive, hclaim⟩
    rw [OrderedMap.get?_insertNew]
    split
    · rename_i hprobe
      subst hprobe
      rw [hclaimant, Option.getD_some]
    · exact hclaimant
  present {probe claimant property value} hclaimant hactive hclaim := by
    rw [OrderedMap.get?_insertNew] at hclaimant
    split at hclaimant
    · rw [Option.some.injEq] at hclaimant
      cases hold : conditions.get? token with
      | some condition =>
          rw [hold, Option.getD_some] at hclaimant
          subst hclaimant
          exact hclaims.present hold hactive hclaim
      | none =>
          rw [hold, Option.getD_none] at hclaimant
          subst hclaimant
          cases hactive
    · exact hclaims.present hclaimant hactive hclaim

end ClaimsBut

namespace Claims

theorem empty (hstyle : ∀ property, style property = none) : Claims .empty style := by
  refine claims_iff.mpr (ClaimsBut.of_no_conditions fun {property value} hvalue => ?_)
  rw [hstyle] at hvalue
  cases hvalue

/-- An element without conditions has no inline style. -/
theorem style_eq_none (hclaims : Claims conditions style) (hempty : conditions.keys = [])
    (property : Text) : style property = none := by
  cases hvalue : style property with
  | none => rfl
  | some value =>
      obtain ⟨token, condition, hcondition, -, -⟩ := hclaims.claimed hvalue
      have hkey : token ∈ conditions.keys := OrderedMap.mem_keys_iff.mpr ⟨condition, hcondition⟩
      rw [hempty] at hkey
      cases hkey

end Claims

end UtilityCss
