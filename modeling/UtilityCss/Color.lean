import UtilityCss.Tables

/-!
Which values read as colours, and the colour that a utility value stands for: a palette entry such
as `blue-500`, or else the value itself when it is a CSS colour.
-/

namespace UtilityCss

/-- The named colours, and `transparent`, in lower case. -/
def namedColors : List String :=
  ["aliceblue", "antiquewhite", "aqua", "aquamarine", "azure", "beige", "bisque", "black",
    "blanchedalmond", "blue", "blueviolet", "brown", "burlywood", "cadetblue", "chartreuse",
    "chocolate", "coral", "cornflowerblue", "cornsilk", "crimson", "cyan", "darkblue", "darkcyan",
    "darkgoldenrod", "darkgray", "darkgreen", "darkgrey", "darkkhaki", "darkmagenta",
    "darkolivegreen", "darkorange", "darkorchid", "darkred", "darksalmon", "darkseagreen",
    "darkslateblue", "darkslategray", "darkslategrey", "darkturquoise", "darkviolet", "deeppink",
    "deepskyblue", "dimgray", "dimgrey", "dodgerblue", "firebrick", "floralwhite", "forestgreen",
    "fuchsia", "gainsboro", "ghostwhite", "gold", "goldenrod", "gray", "green", "greenyellow",
    "grey", "honeydew", "hotpink", "indianred", "indigo", "ivory", "khaki", "lavender",
    "lavenderblush", "lawngreen", "lemonchiffon", "lightblue", "lightcoral", "lightcyan",
    "lightgoldenrodyellow", "lightgray", "lightgreen", "lightgrey", "lightpink", "lightsalmon",
    "lightseagreen", "lightskyblue", "lightslategray", "lightslategrey", "lightsteelblue",
    "lightyellow", "lime", "limegreen", "linen", "magenta", "maroon", "mediumaquamarine",
    "mediumblue", "mediumorchid", "mediumpurple", "mediumseagreen", "mediumslateblue",
    "mediumspringgreen", "mediumturquoise", "mediumvioletred", "midnightblue", "mintcream",
    "mistyrose", "moccasin", "navajowhite", "navy", "oldlace", "olive", "olivedrab", "orange",
    "orangered", "orchid", "palegoldenrod", "palegreen", "paleturquoise", "palevioletred",
    "papayawhip", "peachpuff", "peru", "pink", "plum", "powderblue", "purple", "rebeccapurple",
    "red", "rosybrown", "royalblue", "saddlebrown", "salmon", "sandybrown", "seagreen", "seashell",
    "sienna", "silver", "skyblue", "slateblue", "slategray", "slategrey", "snow", "springgreen",
    "steelblue", "tan", "teal", "thistle", "tomato", "turquoise", "violet", "wheat", "white",
    "whitesmoke", "yellow", "yellowgreen", "transparent"]

/-- The named colours as texts. -/
def namedColorTexts : List Text :=
  namedColors.map String.toList

/-- How a colour function or a reference to a custom property begins. -/
def colorFunctions : List Text :=
  ["rgb(".toList, "rgba(".toList, "hsl(".toList, "hsla(".toList, "lab(".toList, "lch(".toList,
    "oklab(".toList, "oklch(".toList, "color(".toList, "var(--".toList]

/-- Keywords that stand for a value of the cascade or of the `color` property. -/
def wideColorKeywords : List Text :=
  ["inherit".toList, "initial".toList, "unset".toList, "revert".toList, "currentcolor".toList]

def isHexDigit (c : Char) : Bool :=
  c.isDigit || ('a' ≤ c && c ≤ 'f') || ('A' ≤ c && c ≤ 'F')

/-- Whether a value reads as a CSS colour, in letters of either case. -/
def isColor (value : Text) : Bool :=
  match value.asciiLower with
  | '#' :: digits => !digits.isEmpty && digits.all isHexDigit
  | lower =>
      colorFunctions.any (fun start => start.isPrefixOf lower) || wideColorKeywords.contains lower
        || namedColorTexts.contains lower

/-- The palette value of `name-shade`, cut at the last dash. -/
def paletteColor? (tables : Tables) (value : Text) : Option Text :=
  (Text.splitLast '-' value).bind fun (color, shade) => tables.color? color shade

/-- The colour that a utility value stands for, the palette first. -/
def colorValue? (tables : Tables) (value : Text) : Option Text :=
  match paletteColor? tables value with
  | some color => some color
  | none => if isColor value then some value else none

end UtilityCss
