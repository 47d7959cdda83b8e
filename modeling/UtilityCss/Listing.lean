import UtilityCss.Config
import UtilityCss.Text.Columns

/-!
The listing of what a compilation can see: breakpoints, utilities, keywords and shortcuts, each with
its meaning, in the order of the tables.
-/

namespace UtilityCss

/-- A titled part of the listing, with its rows of a name and a meaning. -/
structure ListingSection where
  title : Text
  rows : List (Text × Text)

namespace ListingSection

/-- The columns of the widest name. -/
def width (part : ListingSection) : Nat :=
  (part.rows.map fun (name, _) => name.columns).foldl max 0

def renderRow (width : Nat) (row : Text × Text) : Text :=
  "  ".toList ++ row.1.padTo width ++ "  ".toList ++ row.2 ++ ['\n']

/-- The title and below it the rows, with the meanings one below the other. -/
def render (part : ListingSection) : Text :=
  part.title ++ '\n' ::
    if part.rows.isEmpty then "  (none)\n".toList
    else part.rows.flatMap (renderRow part.width)

end ListingSection

namespace Context

def sections (ctx : Context) : List ListingSection :=
  [⟨"Breakpoints".toList, ctx.breakpoints.entries⟩,
    ⟨"Properties".toList, ctx.tables.properties.entries.map fun (name, css) =>
      (name, ", ".toList.intercalate css)⟩,
    ⟨"Keywords".toList, ctx.tables.keywords.entries⟩,
    ⟨"Shortcuts".toList, ctx.shortcuts.entries⟩]

/-- The listing of the current state, one entry a line. -/
def listing (ctx : Context) : Text :=
  ctx.sections.flatMap ListingSection.render

end Context

end UtilityCss
