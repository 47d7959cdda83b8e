import UtilityCss.Compiler
import UtilityCss.Proofs.Shortcut.Expansion

/-!
What the rule of a shortcut depends on.  Of all shortcuts only those count that can be reached from
its name, so two tables that agree on these give it the same rule.
-/

namespace UtilityCss

namespace Shortcuts

variable {table final : Shortcuts} {name word : Text} {words met : List Text}

/-- A table with the same expansions as a final one, as far as the final one leads from a name. -/
def AgreesBelow (table final : Shortcuts) (name : Text) : Prop :=
  ∀ word, final.Reaches name word → table.get? word = final.get? word

theorem AgreesBelow.contains_eq (hagrees : table.AgreesBelow final name) :
    table.contains name = final.contains name := by
  rw [OrderedMap.contains, OrderedMap.contains, hagrees name .refl]

theorem AgreesBelow.expansionWords_eq (hagrees : table.AgreesBelow final name) :
    table.expansionWords name = final.expansionWords name := by
  rw [expansionWords, expansionWords, hagrees name .refl]

theorem AgreesBelow.of_edge (hagrees : table.AgreesBelow final name)
    (hedge : final.Edge name word) : table.AgreesBelow final word :=
  fun other hreaches => hagrees other (.head hedge hreaches)

/-- The traversal of the final table is one of the other table, too. -/
theorem Meets.of_agreesBelow (hmeets : final.Meets words met)
    (hagrees : ∀ name ∈ words, table.AgreesBelow final name) : table.Meets words met := by
  induction hmeets with
  | done => exact .done
  | @plain first rest met hplain _ ih =>
      have hfirst := hagrees first List.mem_cons_self
      refine .plain (hfirst.contains_eq.trans hplain) (ih fun name hname => ?_)
      exact hagrees name (List.mem_cons_of_mem first hname)
  | @shortcut first rest met hshortcut _ ih =>
      have hfirst := hagrees first List.mem_cons_self
      refine .shortcut (hfirst.contains_eq.trans hshortcut) ?_
      rw [hfirst.expansionWords_eq]
      refine ih fun name hname => ?_
      rcases List.mem_append.mp hname with hinside | hlater
      · exact hfirst.of_edge hinside
      · exact hagrees name (List.mem_cons_of_mem first hlater)

theorem expand_of_agreesBelow (hagrees : table.AgreesBelow final name)
    (hacyclic : ¬ final.LeadsToCycle name) : table.expand name = final.expand name := by
  obtain ⟨tokens, hfinal⟩ := (expand_eq_ok_iff final name).mpr hacyclic
  obtain ⟨met, hmet, rfl⟩ := meets_of_expand hfinal
  have hmeets : table.Meets [name] met := hmet.of_agreesBelow fun other hother =>
    List.mem_singleton.mp hother ▸ hagrees
  obtain ⟨tokens, htable⟩ := (expand_eq_ok_iff table name).mpr
    (hmeets.not_leadsToCycle name (List.mem_singleton_self name))
  obtain ⟨other, hother, rfl⟩ := meets_of_expand htable
  rw [hfinal, htable, hmeets.unique hother]

end Shortcuts

variable {ctx : Context} {table : Shortcuts} {name : Text}

/-- The same context with another table of shortcuts. -/
def Context.withShortcuts (ctx : Context) (shortcuts : Shortcuts) : Context :=
  { ctx with shortcuts }

theorem Resolution.ofBase?_withShortcuts (ctx : Context) (table : Shortcuts) (base : Text) :
    Resolution.ofBase? (ctx.withShortcuts table) base = Resolution.ofBase? ctx base := by
  have hkeyword : ofKeyword? (ctx.withShortcuts table) base = ofKeyword? ctx base := by
    rw [ofKeyword?, ofKeyword?]
    rfl
  have hfraction : ofFraction? (ctx.withShortcuts table) base = ofFraction? ctx base := by
    rw [ofFraction?, ofFraction?]
    rfl
  have hnumber : ofNumber? (ctx.withShortcuts table) base = ofNumber? ctx base := by
    rw [ofNumber?, ofNumber?]
    rfl
  have harbitrary : ofArbitrary? (ctx.withShortcuts table) base = ofArbitrary? ctx base := by
    rw [ofArbitrary?, ofArbitrary?]
    rfl
  rw [ofBase?, ofBase?, firstReading?, firstReading?, hkeyword, hfraction, hnumber, harbitrary]

/-- The rules of a single token know no shortcuts. -/
theorem Rule.ofToken?_withShortcuts (ctx : Context) (table : Shortcuts) (raw : Text) :
    Rule.ofToken? (ctx.withShortcuts table) raw = Rule.ofToken? ctx raw := by
  have hparsed : ∀ token, ofParsed? (ctx.withShortcuts table) token = ofParsed? ctx token := by
    intro token
    rw [ofParsed?, ofParsed?, Resolution.ofBase?_withShortcuts]
    rfl
  have hshorthand : ∀ token : ParsedToken,
      token.expandShorthand? (ctx.withShortcuts table) = token.expandShorthand? ctx := by
    intro token
    rw [ParsedToken.expandShorthand?, ParsedToken.expandShorthand?]
    rfl
  have hfront : ∀ front, ofFrontForm (ctx.withShortcuts table) front = ofFrontForm ctx front := by
    intro front
    simp only [ofFrontForm, hparsed, hshorthand]
    rfl
  unfold ofToken?
  rw [hfront]
  rfl

theorem blockOfTokens_withShortcuts (ctx : Context) (table : Shortcuts) (tokens : List Text) :
    blockOfTokens (ctx.withShortcuts table) tokens = blockOfTokens ctx tokens := by
  simp only [blockOfTokens, Rule.ofToken?_withShortcuts]

theorem shortcutText?_of_agreesBelow (hagrees : table.AgreesBelow ctx.shortcuts name)
    (hacyclic : ¬ ctx.shortcuts.LeadsToCycle name) :
    shortcutText? (ctx.withShortcuts table) name = shortcutText? ctx name := by
  rw [shortcutText?, shortcutText?]
  simp only [blockOfTokens_withShortcuts]
  change (table.expand name).map _ = _
  rw [Shortcuts.expand_of_agreesBelow hagrees hacyclic]

/-- A class compiles to the same rule, or to none, with either table. -/
theorem Compiler.outcome_of_agreesBelow (hagrees : table.AgreesBelow ctx.shortcuts name)
    (hacyclic : ¬ ctx.shortcuts.LeadsToCycle name) :
    outcome (ctx.withShortcuts table) name = outcome ctx name := by
  have hcontains : (ctx.withShortcuts table).shortcuts.contains name =
      ctx.shortcuts.contains name := hagrees.contains_eq
  have hstyle : styleText? (ctx.withShortcuts table) name = styleText? ctx name := by
    rw [styleText?, styleText?, Rule.ofToken?_withShortcuts]
  rw [outcome, outcome, hcontains, shortcutText?_of_agreesBelow hagrees hacyclic, hstyle]

end UtilityCss
