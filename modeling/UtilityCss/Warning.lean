import UtilityCss.Shortcut.Expansion

/-!
Warnings: conditions that are worth a report and stop nothing.  Each is recorded once until the
record is drained.
-/

namespace UtilityCss

inductive Warning where
  /-- A shortcut and a keyword share a name, and the shortcut wins. -/
  | shortcutShadowsKeyword (name : Text)
  /-- A shortcut leads back to itself. -/
  | cyclicShortcut (name : Text) (cycle : ShortcutCycle)
  /-- The host cannot observe element sizes. -/
  | sizeObserverUnavailable
  /-- The configuration asks for an external framework. -/
  | externalFrameworkUnsupported
deriving DecidableEq, Repr

namespace Warning

def message : Warning → Text
  | shortcutShadowsKeyword name =>
      "shortcut '".toList ++ name ++ "' shadows the keyword of the same name".toList
  | cyclicShortcut name cycle =>
      "shortcut '".toList ++ name ++ "' was not compiled: ".toList ++ cycle.message
  | sizeObserverUnavailable =>
      "size observation is unavailable; container queries are disabled".toList
  | externalFrameworkUnsupported =>
      "external framework resolution is not supported; using built-in tables".toList

end Warning

/-- The recorded warnings, the oldest first. -/
structure Diagnostics where
  warnings : List Warning := []
deriving DecidableEq, Repr, Inhabited

namespace Diagnostics

/-- Whether a warning is recorded. -/
def has (diagnostics : Diagnostics) (warning : Warning) : Bool :=
  diagnostics.warnings.contains warning

/-- Record a warning, unless it is recorded. -/
def warn (diagnostics : Diagnostics) (warning : Warning) : Diagnostics :=
  if diagnostics.has warning then diagnostics
  else ⟨diagnostics.warnings ++ [warning]⟩

theorem mem_warn {diagnostics : Diagnostics} {warning w : Warning} :
    w ∈ (diagnostics.warn warning).warnings ↔ w = warning ∨ w ∈ diagnostics.warnings := by
  unfold warn
  split
  · rename_i hrecorded
    have hmem : warning ∈ diagnostics.warnings := by simpa [has] using hrecorded
    exact ⟨Or.inr, fun h => h.elim (· ▸ hmem) id⟩
  · simp [or_comm]

theorem nodup_warn {diagnostics : Diagnostics} (warning : Warning)
    (hnodup : diagnostics.warnings.Nodup) : (diagnostics.warn warning).warnings.Nodup := by
  unfold warn
  split
  · exact hnodup
  · rename_i hnew
    have hmem : warning ∉ diagnostics.warnings := by simpa [has] using hnew
    refine List.nodup_append.mpr ⟨hnodup, by simp, ?_⟩
    intro a ha b hb
    rw [List.mem_singleton] at hb
    rintro rfl
    exact hmem (hb ▸ ha)

end Diagnostics

end UtilityCss
