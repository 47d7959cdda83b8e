import UtilityCss.Config
import UtilityCss.Token.PseudoState

/-!
Class tokens read into their parts.  `m:hover:p-4!` names a breakpoint, a state, the base `p-4` and
an importance, which `!` or `!!` at the end asks for.  The colon-separated segments are taken from the
left while they name a breakpoint or a state; the first one that does neither starts the base, and
the last one always belongs to it.
-/

namespace UtilityCss

/-- How hard a rule fights the cascade. -/
inductive Importance where
  /-- No suffix. -/
  | normal
  /-- One mark: every declaration becomes `!important`. -/
  | important
  /-- Two marks: the selector gets an ancestor chain instead. -/
  | highSpecificity
deriving DecidableEq, Repr, Inhabited

namespace Importance

/-- The end of a token that asks for this importance. -/
def suffix : Importance → Text
  | normal => []
  | important => ['!']
  | highSpecificity => ['!', '!']

/-- The token without its importance marks; at most two marks are read. -/
def split (raw : Text) : Text × Importance :=
  match Text.before? highSpecificity.suffix raw with
  | some rest => (rest, highSpecificity)
  | none =>
      match Text.before? important.suffix raw with
      | some rest => (rest, important)
      | none => (raw, normal)

theorem split_append (raw : Text) : (split raw).1 ++ (split raw).2.suffix = raw := by
  unfold split
  split
  · rename_i rest hrest
    simpa using (Text.before?_eq_some_iff.mp hrest).symm
  · split
    · rename_i rest hrest
      simpa using (Text.before?_eq_some_iff.mp hrest).symm
    · simp [suffix]

end Importance

structure ParsedToken where
  breakpoint : Option Text := none
  states : List PseudoState := []
  importance : Importance := .normal
  base : Text := []
deriving DecidableEq, Repr, Inhabited

/-- The leading segments of a token: at most one breakpoint, the states, and what is left. -/
structure ModifierWalk where
  breakpoint : Option Text
  states : List PseudoState
  rest : List Text
deriving DecidableEq, Repr

namespace ModifierWalk

/-- Take segments from the left while they name a breakpoint, once, or a state. -/
def ofSegments (breakpoints : Breakpoints) : Option Text → List Text → ModifierWalk
  | breakpoint, segment :: next :: rest =>
      if breakpoint.isNone && breakpoints.contains segment then
        ofSegments breakpoints (some segment) (next :: rest)
      else
        match PseudoState.ofName? segment with
        | some state =>
            let walk := ofSegments breakpoints breakpoint (next :: rest)
            { walk with states := state :: walk.states }
        | none => ⟨breakpoint, [], segment :: next :: rest⟩
  | breakpoint, segments => ⟨breakpoint, [], segments⟩

end ModifierWalk

namespace ParsedToken

def hasState (token : ParsedToken) (state : PseudoState) : Bool :=
  token.states.contains state

/-- The states as they are written in front of a base, each with its colon. -/
def statePrefix (token : ParsedToken) : Text :=
  token.states.flatMap fun state => state.name ++ [':']

/-- Read a class token. -/
def parse (breakpoints : Breakpoints) (raw : Text) : ParsedToken :=
  let (body, importance) := Importance.split raw
  let walk := ModifierWalk.ofSegments breakpoints none (body.splitOn ':')
  { breakpoint := walk.breakpoint
    states := walk.states
    importance := importance
    base := [':'].intercalate walk.rest }

/-- Write the parts of a token back: breakpoint, states, base, importance. -/
def render (token : ParsedToken) : Text :=
  let key := match token.breakpoint with
    | some key => key ++ [':']
    | none => []
  key ++ token.statePrefix ++ token.base ++ token.importance.suffix

end ParsedToken

end UtilityCss
