import IndentedSass.Script.Colour
import IndentedSass.Script.Number

/-!
# Values

What an expression evaluates to: a number, a colour, a string or a truth value.
-/

namespace IndentedSass.Script
open Ascii

/-- The result of an expression. -/
inductive Value where
  | number (n : Number)
  | colour (c : Colour)
  | string (text : Text) (isQuoted : Bool)
  | boolean (b : Bool)

namespace Value

/-- The empty string without quotes. -/
def empty : Value := .string [] false

/-- Whether a value counts as true in a test. -/
def isTruthy : Value → Bool
  | number n => n.value != 0
  | colour .transparent => false
  | colour _ => true
  | string s _ => !s.isEmpty
  | boolean b => b

/-- The name of a value's type in messages. -/
def typeName : Value → Text
  | number _ => "number"
  | colour _ => "colour"
  | string .. => "string"
  | boolean _ => "boolean"

/-- A string between double quotes, its own double quotes escaped. -/
def quoteString (s : Text) : Text := quote :: Text.replace "\"" "\\\"" s ++ [quote]

/-- The text of a value in a style sheet. -/
def text (palette : Palette) : Value → Text
  | number n => n.text
  | colour c => c.text palette
  | string s true => quoteString s
  | string s false => s
  | boolean true => "true"
  | boolean false => "false"

/-- The text of a value without the quotes of a string. -/
def plainText (palette : Palette) : Value → Text
  | string s _ => s
  | v => v.text palette

/-- A quoted string from its literal: the quotes are dropped, and an escaped quote of that sort
loses its backslash. -/
def ofQuoted (s : Text) : Value :=
  match s with
  | [] => .string [] true
  | q :: rest => .string (Text.replace [backslash, q] [q] rest.dropLast) true

end Value

end IndentedSass.Script
