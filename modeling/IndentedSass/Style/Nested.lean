import IndentedSass.Style.Layout

/-!
# The nested style

Rules are indented by their depth in the source, and a block is closed on the line of its last
declaration.
-/

namespace IndentedSass.Style.Nested

/-- A rule's own block, if it has declarations. -/
def ownBlock (depth : Nat) (selectors : List (List Text)) (body : List Css) : List Text :=
  let indent := Text.times depth indentUnit
  if Css.hasProperties body then
    [indent ++ Css.joinSelectors ", " (",\n" ++ indent) selectors ++ " \x7b\n" ++
      Text.join "\n" (inlines (indent ++ indentUnit) body) ++ " \x7d"]
  else []

mutual

/-- The blocks of a node, one text each. -/
def node (depth : Nat) : Css → List Text
  | .rule selectors body => ownBlock depth selectors body ++ nodes (depth + 1) body
  | .directive text [] => [Text.times depth indentUnit ++ text ++ ";"]
  | .directive text (first :: rest) =>
    let indent := Text.times depth indentUnit
    [indent ++ text ++ " \x7b\n" ++
      Text.join "\n" (inlines (indent ++ indentUnit) (first :: rest) ++
        nodes (depth + 1) (first :: rest)) ++ " \x7d"]
  | .property .. => []
  | .comment _ => []

/-- The blocks of the rules and directives among some nodes. -/
def nodes (depth : Nat) : List Css → List Text
  | [] => []
  | c :: rest => node depth c ++ nodes depth rest

end

/-- The lines of a node that stands at the outermost level. -/
def topNode (c : Css) : List Text := (inline? [] c).toList ++ node 0 c

/-- The text of a sheet. -/
def render (sheet : List Css) : Text := joinBlocks (linesToBlocks (sheet.map topNode))

end IndentedSass.Style.Nested
