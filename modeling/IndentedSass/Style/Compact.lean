import IndentedSass.Style.Layout

/-!
# The compact style

Every rule has a line of its own.
-/

namespace IndentedSass.Style.Compact

/-- A rule's own block, if it has declarations. -/
def ownBlock (selectors : List (List Text)) (body : List Css) : List Text :=
  if Css.hasProperties body then
    [Css.joinSelectors ", " ", " selectors ++ " \x7b " ++ Text.join " " (inlines [] body) ++
      " \x7d"]
  else []

mutual

/-- The lines of a node. -/
def node : Css → List Text
  | .rule selectors body => ownBlock selectors body ++ nodes body
  | .directive text [] => [text ++ ";"]
  | .directive text (first :: rest) =>
    [text ++ " \x7b " ++
      Text.join " " (inlines [] (first :: rest) ++ nodes (first :: rest)) ++ " \x7d"]
  | .property .. => []
  | .comment _ => []

/-- The lines of the rules and directives among some nodes. -/
def nodes : List Css → List Text
  | [] => []
  | c :: rest => node c ++ nodes rest

end

/-- The lines of a node that stands at the outermost level. -/
def topNode (c : Css) : List Text := (inline? [] c).toList ++ node c

/-- The text of a sheet. -/
def render (sheet : List Css) : Text := joinBlocks (linesToBlocks (sheet.map topNode))

end IndentedSass.Style.Compact
