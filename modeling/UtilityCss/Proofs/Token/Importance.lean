import Mathlib.Data.List.Basic
import UtilityCss.Proofs.Token.Shorthand

/-!
Importance marks at the end of a token.  The marks are read off before anything else and written
back on every token that a token stands for, so they pass through the front form and the shorthand
without a trace in breakpoints, states and bases.
-/

namespace UtilityCss

variable {breakpoints : Breakpoints} {ctx : Context} {body raw text : Text}

/-- A text that does not end in an importance mark. -/
def Unmarked (text : Text) : Prop :=
  text.getLast? ≠ some '!'

theorem unmarked_of_notMem (htext : '!' ∉ text) : Unmarked text := fun hlast =>
  htext (List.mem_of_getLast? hlast)

theorem Unmarked.append (htext : Unmarked text) (hne : text ≠ []) (front : Text) :
    Unmarked (front ++ text) := by
  rw [Unmarked, List.getLast?_append]
  cases hlast : text.getLast? with
  | none => exact absurd (List.getLast?_eq_none_iff.mp hlast) hne
  | some last =>
      rw [Unmarked, hlast] at htext
      exact htext

namespace Importance

/-- Marks behind an unmarked text are read off again. -/
theorem split_append_suffix (hbody : Unmarked body) (importance : Importance) :
    split (body ++ importance.suffix) = (body, importance) := by
  have hnone : ∀ rest, body ≠ rest ++ ['!'] := by
    rintro rest rfl
    exact hbody List.getLast?_concat
  unfold split
  cases importance with
  | highSpecificity =>
      rw [Text.before?_eq_some_iff.mpr rfl]
  | important =>
      have htwo : Text.before? highSpecificity.suffix (body ++ important.suffix) = none :=
        Text.before?_eq_none_iff.mpr fun rest heq =>
          hnone rest (List.append_cancel_right (heq.trans (by simp [suffix])))
      rw [htwo, Text.before?_eq_some_iff.mpr rfl]
  | normal =>
      rw [suffix, List.append_nil]
      have htwo : Text.before? highSpecificity.suffix body = none :=
        Text.before?_eq_none_iff.mpr fun rest heq =>
          hnone (rest ++ ['!']) (heq.trans (by simp [suffix]))
      have hone : Text.before? important.suffix body = none := Text.before?_eq_none_iff.mpr hnone
      rw [htwo, hone]

theorem split_of_unmarked (hbody : Unmarked body) : split body = (body, .normal) := by
  have hsplit := split_append_suffix hbody .normal
  rwa [suffix, List.append_nil] at hsplit

end Importance

theorem frontForm_append_suffix (hraw : Unmarked raw) (importance : Importance) :
    frontForm breakpoints (raw ++ importance.suffix) =
      frontForm breakpoints raw ++ importance.suffix := by
  rw [frontForm, breakpointToFront, Importance.split_append_suffix hraw, frontForm,
    breakpointToFront, Importance.split_of_unmarked hraw]
  dsimp only
  split
  · split
    · rfl
    · simp [Importance.suffix]
  · rfl

namespace ParsedToken

variable {token : ParsedToken} {tokens : List Text} {expanded : Text}

theorem parse_append_suffix (hraw : Unmarked raw) (importance : Importance) :
    parse breakpoints (raw ++ importance.suffix) = { parse breakpoints raw with importance } := by
  rw [parse, Importance.split_append_suffix hraw, parse, Importance.split_of_unmarked hraw]

theorem importance_parse (hraw : Unmarked raw) : (parse breakpoints raw).importance = .normal := by
  rw [parse, Importance.split_of_unmarked hraw]

/-- The tokens of a shorthand carry its marks, behind unmarked texts. -/
theorem expandShorthand?_withImportance (hnormal : token.importance = .normal)
    (importance : Importance) :
    ({ token with importance } : ParsedToken).expandShorthand? ctx =
      (token.expandShorthand? ctx).map (List.map (· ++ importance.suffix)) := by
  simp only [expandShorthand?, Option.map_map, hnormal, statePrefix]
  refine Option.map_congr fun values _ => ?_
  rw [Function.comp_apply, List.map_filterMap]
  refine List.filterMap_congr fun pair _ => ?_
  split
  · rfl
  · simp [Importance.suffix]

theorem unmarked_of_mem_expandShorthand? (hnormal : token.importance = .normal)
    (hbase : '!' ∉ token.base) (htokens : token.expandShorthand? ctx = some tokens)
    (hexpanded : expanded ∈ tokens) : Unmarked expanded := by
  obtain ⟨key, -, front, value, hvalue, hne, -, rfl⟩ :=
    exists_of_mem_expandShorthand? htokens hexpanded
  have hunmarked : Unmarked value := unmarked_of_notMem fun hmark =>
    hbase (Text.mem_of_mem_splitOnP hvalue hmark)
  rw [hnormal, Importance.suffix, List.append_nil, ← List.append_assoc]
  exact hunmarked.append hne _

end ParsedToken

end UtilityCss
