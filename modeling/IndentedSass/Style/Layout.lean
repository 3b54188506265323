import IndentedSass.Css

/-!
# Pieces that the styles share
-/

namespace IndentedSass.Style
open Ascii

/-- The indentation of one level. -/
def indentUnit : Text := "  "

/-- A declaration that stands alone on its line. -/
def declaration (name value : Text) : Text := name ++ ": " ++ value ++ ";"

/-- A comment whose further lines start with a star. -/
def comment (indent : Text) (lines : List Text) : Text :=
  indent ++ "/* " ++ Text.join ("\n" ++ indent ++ " * ") lines ++ " */"

/-- A declaration or comment on a line of its own; nothing for other nodes. -/
def inline? (indent : Text) : Css → Option Text
  | .property name value => some (indent ++ declaration name value)
  | .comment lines => some (comment indent lines)
  | _ => none

/-- The declarations and comments of a block, one text each. -/
def inlines (indent : Text) (body : List Css) : List Text := body.filterMap (inline? indent)

/-- Blocks with a blank line between them, and a line end after the last. -/
def joinBlocks : List Text → Text
  | [] => []
  | blocks => Text.join "\n\n" blocks ++ "\n"

/-- Each block that has lines, as one text. -/
def linesToBlocks (blocks : List (List Text)) : List Text :=
  (blocks.filter fun lines => !lines.isEmpty).map (Text.join "\n")

end IndentedSass.Style
