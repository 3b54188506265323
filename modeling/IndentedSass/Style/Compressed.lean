import IndentedSass.Style.Layout

/-!
# The compressed style

No comments and no white space that does not belong to a selector, a name or a value; declarations
are separated, not ended, by semicolons.
-/

namespace IndentedSass.Style.Compressed
open Ascii

/-- A declaration without its semicolon; nothing for other nodes. -/
def declaration? : Css → Option Text
  | .property name value => some (name ++ ":" ++ value)
  | _ => none

/-- The declarations of a block. -/
def declarations (body : List Css) : Text := Text.join ";" (body.filterMap declaration?)

/-- The semicolon between the declarations of a block and what is nested in it. -/
def separator (body : List Css) : Text :=
  if Css.hasProperties body && body.any (fun c => !c.isInline) then ";" else []

mutual

/-- The text of a rule or directive. -/
def node : Css → Text
  | .rule selectors body =>
    if Css.hasProperties body then
      Css.joinSelectors "," "," selectors ++ lbrace :: declarations body ++ rbrace :: nodes body
    else nodes body
  | .directive text [] => text ++ ";"
  | .directive text (first :: rest) =>
    text ++ lbrace :: declarations (first :: rest) ++ separator (first :: rest) ++
      nodes (first :: rest) ++ [rbrace]
  | .property .. => []
  | .comment _ => []

/-- The texts of the rules and directives among some nodes. -/
def nodes : List Css → Text
  | [] => []
  | c :: rest => node c ++ nodes rest

end

/-- The text of a sheet. -/
def render (sheet : List Css) : Text := declarations sheet ++ separator sheet ++ nodes sheet

end IndentedSass.Style.Compressed
