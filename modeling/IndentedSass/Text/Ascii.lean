/-!
# The bytes of ASCII

Sheets are read byte by byte, and every byte with a meaning of its own is an ASCII character.
This module names those bytes and the classes of bytes that the readers test for.
-/

namespace IndentedSass.Ascii

@[match_pattern] abbrev tab : UInt8 := 0x09
@[match_pattern] abbrev newline : UInt8 := 0x0a
@[match_pattern] abbrev verticalTab : UInt8 := 0x0b
@[match_pattern] abbrev formFeed : UInt8 := 0x0c
@[match_pattern] abbrev carriageReturn : UInt8 := 0x0d
@[match_pattern] abbrev escape : UInt8 := 0x1b
@[match_pattern] abbrev space : UInt8 := 0x20
@[match_pattern] abbrev bang : UInt8 := 0x21
@[match_pattern] abbrev quote : UInt8 := 0x22
@[match_pattern] abbrev hashSign : UInt8 := 0x23
@[match_pattern] abbrev dollar : UInt8 := 0x24
@[match_pattern] abbrev percent : UInt8 := 0x25
@[match_pattern] abbrev ampersand : UInt8 := 0x26
@[match_pattern] abbrev apostrophe : UInt8 := 0x27
@[match_pattern] abbrev lparen : UInt8 := 0x28
@[match_pattern] abbrev rparen : UInt8 := 0x29
@[match_pattern] abbrev asterisk : UInt8 := 0x2a
@[match_pattern] abbrev plus : UInt8 := 0x2b
@[match_pattern] abbrev comma : UInt8 := 0x2c
@[match_pattern] abbrev minus : UInt8 := 0x2d
@[match_pattern] abbrev dot : UInt8 := 0x2e
@[match_pattern] abbrev slash : UInt8 := 0x2f
@[match_pattern] abbrev zero : UInt8 := 0x30
@[match_pattern] abbrev nine : UInt8 := 0x39
@[match_pattern] abbrev colon : UInt8 := 0x3a
@[match_pattern] abbrev semicolon : UInt8 := 0x3b
@[match_pattern] abbrev less : UInt8 := 0x3c
@[match_pattern] abbrev equal : UInt8 := 0x3d
@[match_pattern] abbrev greater : UInt8 := 0x3e
@[match_pattern] abbrev question : UInt8 := 0x3f
@[match_pattern] abbrev atSign : UInt8 := 0x40
@[match_pattern] abbrev lbracket : UInt8 := 0x5b
@[match_pattern] abbrev backslash : UInt8 := 0x5c
@[match_pattern] abbrev rbracket : UInt8 := 0x5d
@[match_pattern] abbrev caret : UInt8 := 0x5e
@[match_pattern] abbrev underscore : UInt8 := 0x5f
@[match_pattern] abbrev lbrace : UInt8 := 0x7b
@[match_pattern] abbrev bar : UInt8 := 0x7c
@[match_pattern] abbrev rbrace : UInt8 := 0x7d
@[match_pattern] abbrev tilde : UInt8 := 0x7e

/-! ## Classes of bytes -/

/-- A decimal digit. -/
def isDigit (c : UInt8) : Bool := 0x30 ≤ c && c ≤ 0x39

/-- A lower case letter. -/
def isLower (c : UInt8) : Bool := 0x61 ≤ c && c ≤ 0x7a

/-- An upper case letter. -/
def isUpper (c : UInt8) : Bool := 0x41 ≤ c && c ≤ 0x5a

/-- A letter of either case. -/
def isLetter (c : UInt8) : Bool := isLower c || isUpper c

/-- A letter, a digit or the underscore. -/
def isWord (c : UInt8) : Bool := c == underscore || isDigit c || isLetter c

/-- A byte that separates the words of a header: space, tab, line feed, form feed or carriage
return. -/
def isBlank (c : UInt8) : Bool :=
  c == space || c == tab || c == newline || c == formFeed || c == carriageReturn

/-- A byte that opens and closes a quoted string. -/
def isQuote (c : UInt8) : Bool := c == quote || c == apostrophe

/-- The lower case form of a letter; any other byte stays as it is. -/
def toLower (c : UInt8) : UInt8 := if isUpper c then c + 0x20 else c

/-- The value of a hexadecimal digit. -/
def hexValue? (c : UInt8) : Option Nat :=
  if isDigit c then some (c - 0x30).toNat
  else if 0x61 ≤ c && c ≤ 0x66 then some ((c - 0x61).toNat + 10)
  else if 0x41 ≤ c && c ≤ 0x46 then some ((c - 0x41).toNat + 10)
  else none

/-- The byte of the digit `d < 16`, in lower case. -/
def hexDigit (d : Nat) : UInt8 :=
  if d < 10 then (0x30 + d).toUInt8 else (0x57 + d).toUInt8

end IndentedSass.Ascii
