import IndentedSass.Style.Nested
import IndentedSass.Style.Expanded
import IndentedSass.Style.Compact
import IndentedSass.Style.Compressed

/-!
# Output styles

The four ways to write a finished sheet.
-/

namespace IndentedSass

/-- An output style. -/
inductive Style where
  | nested
  | expanded
  | compact
  | compressed
  deriving DecidableEq, Repr

namespace Style

/-- All styles. -/
def all : List Style := [nested, expanded, compact, compressed]

/-- The name of a style. -/
def name : Style → Text
  | nested => "nested"
  | expanded => "expanded"
  | compact => "compact"
  | compressed => "compressed"

/-- The style of a name. -/
def ofName? (s : Text) : Option Style := all.find? fun style => style.name = s

/-- The text of a sheet. -/
def render : Style → List Css → Text
  | nested => Nested.render
  | expanded => Expanded.render
  | compact => Compact.render
  | compressed => Compressed.render

end Style

end IndentedSass
