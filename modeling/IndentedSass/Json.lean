import IndentedSass.Text.Utf8

/-!
# JSON

JSON values and how they are written: on one line, without blanks, and with the characters escaped
that mean something in a page.
-/

namespace IndentedSass

/-- A JSON value; a number is kept as it is written. -/
inductive Json where
  | null
  | bool (b : Bool)
  | number (digits : Text)
  | string (s : Text)
  | array (items : List Json)
  | object (fields : List (Text × Json))
  deriving Inhabited

namespace Json
open Ascii

/-- One glyph as it stands in a string. -/
def escapeGlyph : Text.Glyph → Text
  | .stray _ => "\\ufffd"
  | .char c =>
    let n := c.toNat
    if n = 0x22 || n = 0x5c then backslash :: Text.ofChar c
    else if n = 0x08 then "\\b"
    else if n = 0x0c then "\\f"
    else if n = 0x0a then "\\n"
    else if n = 0x0d then "\\r"
    else if n = 0x09 then "\\t"
    else if n < 0x20 || n = 0x3c || n = 0x3e || n = 0x26 || n = 0x2028 || n = 0x2029 then
      "\\u" ++ Text.ofHex 4 n
    else Text.ofChar c

/-- A text as a string. -/
def quoteText (s : Text) : Text := quote :: s.glyphs.flatMap escapeGlyph ++ [quote]

mutual

/-- The text of a value. -/
def render : Json → Text
  | .null => "null"
  | .bool b => if b then "true" else "false"
  | .number digits => digits
  | .string s => quoteText s
  | .array items => lbracket :: Text.join "," (renderItems items) ++ [rbracket]
  | .object fields => lbrace :: Text.join "," (renderFields fields) ++ [rbrace]

/-- The texts of the items of an array. -/
def renderItems : List Json → List Text
  | [] => []
  | item :: rest => render item :: renderItems rest

/-- The texts of the fields of an object. -/
def renderFields : List (Text × Json) → List Text
  | [] => []
  | (name, value) :: rest => (quoteText name ++ ":" ++ render value) :: renderFields rest

end

/-- An integer. -/
def ofInt (n : Int) : Json := .number (Text.ofInt n)

/-- A list of strings. -/
def ofTexts (items : List Text) : Json := .array (items.map .string)

end Json

end IndentedSass
