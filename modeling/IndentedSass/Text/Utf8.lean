import IndentedSass.Text

/-!
# Characters of a text

A text is read as UTF-8 into characters and stray bytes: a byte that does not belong to the
shortest encoding of a character stands alone.
-/

namespace IndentedSass.Text

/-- A character, or a byte outside every character. -/
inductive Glyph where
  | char (c : Char)
  | stray (b : UInt8)
  deriving DecidableEq, Repr

namespace Utf8

/-- The six bits that a continuation byte carries. -/
def tailBits? (low high : UInt8) (b : UInt8) : Option Nat :=
  if low ≤ b && b ≤ high then some (b.toNat - 0x80) else none

/-- The code point of the character that starts with byte `a` and goes on in `s`, with the number
of bytes it takes from `s`. -/
def decode? (a : UInt8) (s : Text) : Option (Nat × Nat) :=
  if a < 0x80 then some (a.toNat, 0)
  else if 0xc2 ≤ a && a ≤ 0xdf then
    match s with
    | b :: _ => do
      let x ← tailBits? 0x80 0xbf b
      return ((a.toNat - 0xc0) * 0x40 + x, 1)
    | _ => none
  else if 0xe0 ≤ a && a ≤ 0xef then
    match s with
    | b :: c :: _ => do
      let x ← tailBits? (if a == 0xe0 then 0xa0 else 0x80) (if a == 0xed then 0x9f else 0xbf) b
      let y ← tailBits? 0x80 0xbf c
      return (((a.toNat - 0xe0) * 0x40 + x) * 0x40 + y, 2)
    | _ => none
  else if 0xf0 ≤ a && a ≤ 0xf4 then
    match s with
    | b :: c :: d :: _ => do
      let x ← tailBits? (if a == 0xf0 then 0x90 else 0x80) (if a == 0xf4 then 0x8f else 0xbf) b
      let y ← tailBits? 0x80 0xbf c
      let z ← tailBits? 0x80 0xbf d
      return ((((a.toNat - 0xf0) * 0x40 + x) * 0x40 + y) * 0x40 + z, 3)
    | _ => none
  else none

/-- Reads glyphs, with `skip` bytes of a character still to pass. -/
def glyphsFrom : (skip : Nat) → Text → List Glyph
  | _, [] => []
  | skip + 1, _ :: s => glyphsFrom skip s
  | 0, a :: s =>
    match decode? a s with
    | some (point, skip) => .char (Char.ofNat point) :: glyphsFrom skip s
    | none => .stray a :: glyphsFrom 0 s

end Utf8

/-- The characters and stray bytes of a text, in order. -/
def glyphs (s : Text) : List Glyph := Utf8.glyphsFrom 0 s

/-- The UTF-8 bytes of one character. -/
def ofChar (c : Char) : Text := String.utf8EncodeChar c

/-- The text as a string, with the replacement character for each stray byte. -/
def display (s : Text) : String :=
  String.ofList (s.glyphs.map fun
    | .char c => c
    | .stray _ => Char.ofNat 0xfffd)

end IndentedSass.Text
