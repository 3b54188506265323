import IndentedSass.Text.Utf8
import IndentedSass.Text.Printable

/-!
# Quoted texts

Messages show a text between double quotes. Printable characters stand for themselves; the quote,
the backslash, control characters, other unprintable characters and stray bytes are escaped.
-/

namespace IndentedSass.Text
open Ascii

/-- One glyph as it stands between double quotes. -/
def Glyph.quoted : Glyph → Text
  | .stray b => "\\x" ++ ofHex 2 b.toNat
  | .char c =>
    let n := c.toNat
    if n = 0x22 || n = 0x5c then backslash :: ofChar c
    else if isPrintable c then ofChar c
    else if n = 0x07 then "\\a"
    else if n = 0x08 then "\\b"
    else if n = 0x0c then "\\f"
    else if n = 0x0a then "\\n"
    else if n = 0x0d then "\\r"
    else if n = 0x09 then "\\t"
    else if n = 0x0b then "\\v"
    else if n < 0x20 || n = 0x7f then "\\x" ++ ofHex 2 n
    else if n < 0x10000 then "\\u" ++ ofHex 4 n
    else "\\U" ++ ofHex 8 n

/-- The text between double quotes, with escapes. -/
def quoted (s : Text) : Text :=
  quote :: (s.glyphs.flatMap Glyph.quoted) ++ [quote]

end IndentedSass.Text
