import StyleTree.Text.CamelCase

/-!
# Property names

A key names a property in hyphenated form or in camel case. Two tables say what a number means for
a property: for the unitless ones it is written bare, and for the non-numeric ones it is an error.
-/

namespace StyleTree.Property

/-- The property that `key` names. A key with a hyphen is taken as it stands. -/
def name (key : String) : String :=
  if '-' ∈ key.toList then key else Text.hyphenate key

/-- The properties whose numbers are written without a unit. -/
def unitless : List String :=
  ["animation-iteration-count", "aspect-ratio", "column-count", "fill-opacity", "flex",
   "flex-grow", "flex-shrink", "font-weight", "grid-column", "grid-column-end",
   "grid-column-start", "grid-row", "grid-row-end", "grid-row-start", "line-clamp",
   "line-height", "opacity", "order", "orphans", "scale", "stroke-opacity", "tab-size", "widows",
   "z-index", "zoom"]

/-- The properties for which a number has no meaning. -/
def nonNumeric : List String :=
  ["animation", "animation-name", "background", "background-color", "background-image",
   "border-color", "border-style", "color", "content", "cursor", "display", "fill", "float",
   "font-family", "font-style", "grid-template-areas", "list-style-type", "outline-color",
   "overflow", "pointer-events", "position", "stroke", "text-align", "text-decoration",
   "text-transform", "transform", "transition", "transition-property", "visibility",
   "white-space"]

end StyleTree.Property
