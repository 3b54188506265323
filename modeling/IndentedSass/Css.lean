import IndentedSass.Text

/-!
# Finished sheets

A finished sheet holds no variables, mixins or loops any more: only rules with resolved selectors,
declarations, directives and comments.
-/

namespace IndentedSass

/-- A node of a finished sheet. -/
inductive Css where
  /-- Selectors, grouped by the source line they come from. -/
  | rule (selectors : List (List Text)) (body : List Css)
  | property (name value : Text)
  | directive (text : Text) (body : List Css)
  | comment (lines : List Text)
  deriving Inhabited

namespace Css

/-- Whether a node is a declaration of its own. -/
def isProperty : Css → Bool
  | property .. => true
  | _ => false

/-- Whether a node stands among the declarations of a block: a property or a comment. -/
def isInline : Css → Bool
  | property .. | comment _ => true
  | _ => false

/-- Whether a block has a declaration of its own. -/
def hasProperties (body : List Css) : Bool := body.any isProperty

/-- The selectors in one text: `sep` joins those of one line, `lineSep` the lines. -/
def joinSelectors (sep lineSep : Text) (selectors : List (List Text)) : Text :=
  Text.join lineSep (selectors.map (Text.join sep))

end Css

end IndentedSass
