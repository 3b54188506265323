import IndentedSass.Style.Layout

/-!
# The expanded style

Every declaration and every closing brace has a line of its own. Rules are not indented by their
depth, only by the directives around them.
-/

namespace IndentedSass.Style.Expanded

/-- A text with its line end. -/
def endLine (s : Text) : Text := s ++ "\n"

/-- A rule's own block, if it has declarations. -/
def ownBlock (indent : Text) (selectors : List (List Text)) (body : List Css) : List Text :=
  if Css.hasProperties body then
    [indent ++ Css.joinSelectors ", " (",\n" ++ indent) selectors ++ " \x7b\n" ++
      (inlines (indent ++ indentUnit) body).flatMap endLine ++ indent ++ "\x7d"]
  else []

mutual

/-- The blocks of a node, one text each. -/
def node (indent : Text) : Css → List Text
  | .rule selectors body => ownBlock indent selectors body ++ nodes indent body
  | .directive text [] => [indent ++ text ++ ";"]
  | .directive text (first :: rest) =>
    [indent ++ text ++ " \x7b\n" ++
      Text.join "\n" (inlines (indent ++ indentUnit) (first :: rest) ++
        nodes (indent ++ indentUnit) (first :: rest)) ++ "\n" ++ indent ++ "\x7d"]
  | .property .. => []
  | .comment _ => []

/-- The blocks of the rules and directives among some nodes. -/
def nodes (indent : Text) : List Css → List Text
  | [] => []
  | c :: rest => node indent c ++ nodes indent rest

end

/-- The blocks of a node that stands at the outermost level. -/
def topNode (c : Css) : List Text := (inline? [] c).toList ++ node [] c

/-- The text of a sheet. -/
def render (sheet : List Css) : Text := joinBlocks (sheet.flatMap topNode)

end IndentedSass.Style.Expanded
