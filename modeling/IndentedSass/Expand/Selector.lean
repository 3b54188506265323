import IndentedSass.Text.Quoted
import IndentedSass.Fault

/-!
# Selectors under their parents

A nested selector is resolved against the selectors around it: each parent takes the place of the
parent references `&`, and a selector without any is put behind each parent. Between double quotes
an ampersand is an ordinary character.
-/

namespace IndentedSass.Selector
open Ascii

/-- Whether there is a parent reference, read from inside or outside double quotes. -/
def hasParentRef : (inString : Bool) → Text → Bool
  | _, [] => false
  | inString, c :: s =>
    if c == quote then hasParentRef (!inString) s
    else (c == ampersand && !inString) || hasParentRef inString s

/-- The text with `parent` for every parent reference. -/
def replaceParentRef (parent : Text) : (inString : Bool) → Text → Text
  | _, [] => []
  | inString, c :: s =>
    if c == quote then c :: replaceParentRef parent (!inString) s
    else if c == ampersand && !inString then parent ++ replaceParentRef parent inString s
    else c :: replaceParentRef parent inString s

/-- The selectors that a nested selector stands for. -/
def resolve (parents : List Text) (s : Text) : Except Fault (List Text) :=
  if hasParentRef false s then
    if parents.isEmpty then
      .error (.of .noParentSelector
        ("cannot use & in " ++ s.quoted ++ " without a parent selector"))
    else .ok (parents.map fun parent => replaceParentRef parent false s)
  else if parents.isEmpty then .ok [s]
  else .ok (parents.map fun parent => parent ++ space :: s)

end IndentedSass.Selector
