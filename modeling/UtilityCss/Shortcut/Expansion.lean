import UtilityCss.Config
import UtilityCss.Text.Blank

/-!
Shortcuts expand to class tokens.  A word of an expansion may be a shortcut again, so the table is a
graph, and expanding a name walks that graph depth first and from left to right.  The plain words are
kept at their first occurrence.  A name that comes back on its own path is a cycle, and the path to it
is the error.
-/

namespace UtilityCss

/-- A shortcut that is met again while it is being expanded: the names from the start to it. -/
structure ShortcutCycle where
  path : List Text
deriving DecidableEq, Repr, Inhabited

def ShortcutCycle.message (cycle : ShortcutCycle) : Text :=
  "cycle detected in shortcuts: ".toList ++ " -> ".toList.intercalate cycle.path

namespace Shortcuts

/-- The words of a shortcut's expansion; none when the name is no shortcut. -/
def expansionWords (shortcuts : Shortcuts) (name : Text) : List Text :=
  match shortcuts.get? name with
  | some expansion => expansion.words
  | none => []

/-- Add a token at the end, unless it is there already. -/
def addToken (tokens : List Text) (token : Text) : List Text :=
  if token ∈ tokens then tokens else tokens ++ [token]

/-- How many shortcuts are not on the path. -/
def unvisited (shortcuts : Shortcuts) (path : List Text) : Nat :=
  (shortcuts.keys.filter fun key => key ∉ path).length

theorem unvisited_append_lt {shortcuts : Shortcuts} {path : List Text} {name : Text}
    (hname : shortcuts.contains name = true) (hpath : name ∉ path) :
    shortcuts.unvisited (path ++ [name]) < shortcuts.unvisited path := by
  have hsplit : (shortcuts.keys.filter fun key => key ∉ path ++ [name]) =
      (shortcuts.keys.filter fun key => key ∉ path).filter fun key => key ≠ name := by
    rw [List.filter_filter]
    exact List.filter_congr fun key _ => by simp [and_comm]
  rw [unvisited, unvisited, hsplit]
  refine List.length_filter_lt_length_iff_exists.mpr ⟨name, ?_, by simp⟩
  simp only [List.mem_filter, decide_eq_true_eq]
  exact ⟨OrderedMap.contains_iff.mp hname, hpath⟩

/-- Expand a name that was reached along a path, after the tokens that are already known. -/
def expandFrom (shortcuts : Shortcuts) (path tokens : List Text) (name : Text) :
    Except ShortcutCycle (List Text) :=
  if _ : shortcuts.contains name = true then
    if _ : name ∈ path then .error ⟨path ++ [name]⟩
    else
      (shortcuts.expansionWords name).foldlM (expandFrom shortcuts (path ++ [name])) tokens
  else .ok (addToken tokens name)
  termination_by shortcuts.unvisited path
  decreasing_by exact unvisited_append_lt ‹_› ‹_›

/-- The plain tokens that a name stands for, each once; the name itself when it is no shortcut. -/
def expand (shortcuts : Shortcuts) (name : Text) : Except ShortcutCycle (List Text) :=
  shortcuts.expandFrom [] [] name

end Shortcuts

end UtilityCss
