import UtilityCss.OrderedMap
import UtilityCss.Text

/-!
The tables that give utilities their meaning: CSS properties by utility name, declaration blocks by
keyword, and colour values by palette colour and shade.  A compiler starts with the built-in ones:
spacing, sizing, typography, transform and gradient utilities, common keywords, and a palette of nine
colours in ten shades.
-/

namespace UtilityCss

structure Tables where
  /-- The CSS properties that a utility such as `px` sets. -/
  properties : OrderedMap Text (List Text) := .empty
  /-- The declaration block that a keyword such as `flex` stands for. -/
  keywords : OrderedMap Text Text := .empty
  /-- Palette values, by colour and then by shade. -/
  colors : OrderedMap Text (OrderedMap Text Text) := .empty
deriving DecidableEq, Inhabited

namespace Tables

def empty : Tables := {}

def setProperty (tables : Tables) (name : Text) (css : List Text) : Tables :=
  { tables with properties := tables.properties.insert name css }

def setKeyword (tables : Tables) (name block : Text) : Tables :=
  { tables with keywords := tables.keywords.insert name block }

def setColor (tables : Tables) (color shade value : Text) : Tables :=
  { tables with
    colors := tables.colors.alter color fun shades => (shades.getD .empty).insert shade value }

def color? (tables : Tables) (color shade : Text) : Option Text :=
  (tables.colors.get? color).bind fun shades => shades.get? shade

theorem color?_setColor (tables : Tables) (color shade value color' shade' : Text) :
    (tables.setColor color shade value).color? color' shade' =
      if color' = color ∧ shade' = shade then some value else tables.color? color' shade' := by
  simp only [color?, setColor, OrderedMap.get?_alter]
  by_cases hcolor : color' = color
  · subst hcolor
    by_cases hshade : shade' = shade
    · simp [hshade, OrderedMap.get?_insert]
    · cases tables.colors.get? color' <;> simp [hshade, OrderedMap.get?_insert]
  · simp [hcolor]

/-- Utilities with the CSS properties they set. -/
def builtinProperties : List (String × List String) :=
  [("p", ["padding"]), ("px", ["padding-left", "padding-right"]),
    ("py", ["padding-top", "padding-bottom"]), ("pt", ["padding-top"]), ("pr", ["padding-right"]),
    ("pb", ["padding-bottom"]), ("pl", ["padding-left"]), ("m", ["margin"]),
    ("mx", ["margin-left", "margin-right"]), ("my", ["margin-top", "margin-bottom"]),
    ("mt", ["margin-top"]), ("mr", ["margin-right"]), ("mb", ["margin-bottom"]),
    ("ml", ["margin-left"]), ("gap", ["gap"]), ("gap-x", ["column-gap"]), ("gap-y", ["row-gap"]),
    ("w", ["width"]), ("h", ["height"]), ("min-w", ["min-width"]), ("max-w", ["max-width"]),
    ("min-h", ["min-height"]), ("max-h", ["max-height"]), ("top", ["top"]), ("right", ["right"]),
    ("bottom", ["bottom"]), ("left", ["left"]), ("z", ["z-index"]), ("order", ["order"]),
    ("grow", ["flex-grow"]), ("shrink", ["flex-shrink"]), ("basis", ["flex-basis"]),
    ("opacity", ["opacity"]), ("rounded", ["border-radius"]), ("border", ["border-width"]),
    ("text", ["font-size"]), ("weight", ["font-weight"]), ("leading", ["line-height"]),
    ("tracking", ["letter-spacing"]), ("bg", ["background-color"]),
    ("border-color", ["border-color"]), ("fill", ["fill"]), ("stroke", ["stroke"]),
    ("grid-cols", ["grid-template-columns"]), ("scale", ["transform"]), ("scale-x", ["transform"]),
    ("scale-y", ["transform"]), ("rotate", ["transform"]), ("translate-x", ["transform"]),
    ("translate-y", ["transform"]), ("skew-x", ["transform"]), ("skew-y", ["transform"]),
    ("from", ["--pw-gradient-from"]), ("via", ["--pw-gradient-via"]), ("to", ["--pw-gradient-to"])]

/-- Keywords with the declaration blocks they stand for. -/
def builtinKeywords : List (String × String) :=
  [("block", "display: block;"),
    ("inline", "display: inline;"),
    ("inline-block", "display: inline-block;"),
    ("flex", "display: flex;"),
    ("inline-flex", "display: inline-flex;"),
    ("grid", "display: grid;"),
    ("hidden", "display: none;"),
    ("static", "position: static;"),
    ("relative", "position: relative;"),
    ("absolute", "position: absolute;"),
    ("fixed", "position: fixed;"),
    ("sticky", "position: sticky;"),
    ("flex-row", "flex-direction: row;"),
    ("flex-col", "flex-direction: column;"),
    ("flex-wrap", "flex-wrap: wrap;"),
    ("items-start", "align-items: flex-start;"),
    ("items-center", "align-items: center;"),
    ("items-end", "align-items: flex-end;"),
    ("justify-start", "justify-content: flex-start;"),
    ("justify-center", "justify-content: center;"),
    ("justify-end", "justify-content: flex-end;"),
    ("justify-between", "justify-content: space-between;"),
    ("text-left", "text-align: left;"),
    ("text-center", "text-align: center;"),
    ("text-right", "text-align: right;"),
    ("text-xs", "font-size: 12px; line-height: 16px;"),
    ("text-sm", "font-size: 14px; line-height: 20px;"),
    ("text-base", "font-size: 16px; line-height: 24px;"),
    ("text-lg", "font-size: 18px; line-height: 28px;"),
    ("text-xl", "font-size: 20px; line-height: 28px;"),
    ("text-2xl", "font-size: 24px; line-height: 32px;"),
    ("font-light", "font-weight: 300;"),
    ("font-normal", "font-weight: 400;"),
    ("font-bold", "font-weight: 700;"),
    ("italic", "font-style: italic;"),
    ("underline", "text-decoration: underline;"),
    ("uppercase", "text-transform: uppercase;"),
    ("truncate", "overflow: hidden; text-overflow: ellipsis; white-space: nowrap;"),
    ("overflow-hidden", "overflow: hidden;"),
    ("cursor-pointer", "cursor: pointer;"),
    ("w-full", "width: 100%;"),
    ("h-full", "height: 100%;"),
    ("w-screen", "width: 100vw;"),
    ("h-screen", "height: 100vh;"),
    ("rounded", "border-radius: 4px;"),
    ("rounded-full", "border-radius: 9999px;"),
    ("shadow", "box-shadow: 0 1px 3px 0 rgb(0 0 0 / 0.1), 0 1px 2px -1px rgb(0 0 0 / 0.1);"),
    ("transition", "transition-property: all; transition-duration: 150ms;"),
    ("bg-gradient-to-t",
      "background-image: linear-gradient(to top, var(--pw-gradient-stops));"),
    ("bg-gradient-to-tr",
      "background-image: linear-gradient(to top right, var(--pw-gradient-stops));"),
    ("bg-gradient-to-r",
      "background-image: linear-gradient(to right, var(--pw-gradient-stops));"),
    ("bg-gradient-to-br",
      "background-image: linear-gradient(to bottom right, var(--pw-gradient-stops));"),
    ("bg-gradient-to-b",
      "background-image: linear-gradient(to bottom, var(--pw-gradient-stops));"),
    ("bg-gradient-to-bl",
      "background-image: linear-gradient(to bottom left, var(--pw-gradient-stops));"),
    ("bg-gradient-to-l",
      "background-image: linear-gradient(to left, var(--pw-gradient-stops));"),
    ("bg-gradient-to-tl",
      "background-image: linear-gradient(to top left, var(--pw-gradient-stops));")]

/-- The shades of every built-in colour, lightest first. -/
def builtinShades : List String :=
  ["50", "100", "200", "300", "400", "500", "600", "700", "800", "900"]

/-- The built-in colours with their values, in the order of the shades. -/
def builtinPalette : List (String × List String) :=
  [("gray", ["#f9fafb", "#f3f4f6", "#e5e7eb", "#d1d5db", "#9ca3af", "#6b7280",
      "#4b5563", "#374151", "#1f2937", "#111827"]),
    ("red", ["#fef2f2", "#fee2e2", "#fecaca", "#fca5a5", "#f87171", "#ef4444",
      "#dc2626", "#b91c1c", "#991b1b", "#7f1d1d"]),
    ("orange", ["#fff7ed", "#ffedd5", "#fed7aa", "#fdba74", "#fb923c", "#f97316",
      "#ea580c", "#c2410c", "#9a3412", "#7c2d12"]),
    ("yellow", ["#fefce8", "#fef9c3", "#fef08a", "#fde047", "#facc15", "#eab308",
      "#ca8a04", "#a16207", "#854d0e", "#713f12"]),
    ("green", ["#f0fdf4", "#dcfce7", "#bbf7d0", "#86efac", "#4ade80", "#22c55e",
      "#16a34a", "#15803d", "#166534", "#14532d"]),
    ("blue", ["#eff6ff", "#dbeafe", "#bfdbfe", "#93c5fd", "#60a5fa", "#3b82f6",
      "#2563eb", "#1d4ed8", "#1e40af", "#1e3a8a"]),
    ("indigo", ["#eef2ff", "#e0e7ff", "#c7d2fe", "#a5b4fc", "#818cf8", "#6366f1",
      "#4f46e5", "#4338ca", "#3730a3", "#312e81"]),
    ("purple", ["#faf5ff", "#f3e8ff", "#e9d5ff", "#d8b4fe", "#c084fc", "#a855f7",
      "#9333ea", "#7e22ce", "#6b21a8", "#581c87"]),
    ("pink", ["#fdf2f8", "#fce7f3", "#fbcfe8", "#f9a8d4", "#f472b6", "#ec4899",
      "#db2777", "#be185d", "#9d174d", "#831843"])]

/-- The tables of a new compiler. -/
def builtin : Tables :=
  let properties := builtinProperties.foldl
    (fun tables (name, css) => tables.setProperty name.toList (css.map String.toList)) empty
  let keywords := builtinKeywords.foldl
    (fun tables (name, block) => tables.setKeyword name.toList block.toList) properties
  builtinPalette.foldl
    (fun tables (color, values) =>
      (builtinShades.zip values).foldl
        (fun tables (shade, value) => tables.setColor color.toList shade.toList value.toList)
        tables)
    keywords

end Tables

end UtilityCss
