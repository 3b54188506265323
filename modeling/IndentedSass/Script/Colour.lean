import IndentedSass.Script.Palette
import IndentedSass.Decimal.Binary
import IndentedSass.Fault

/-!
# Colours

A colour is transparent or has three channels. Channels are numbers that arithmetic may carry
outside the range of a byte; they are brought back into it only when a colour is written or
compared.
-/

namespace IndentedSass.Script
open Ascii Decimal

/-- A colour of a script. -/
inductive Colour where
  | transparent
  | rgb (red green blue : Float)

namespace Colour

/-- The colour of a packed value: eight bits a channel, red in the highest. -/
def ofPacked (v : Nat) : Colour :=
  rgb (Float.ofNat (v / 0x10000 % 0x100)) (Float.ofNat (v / 0x100 % 0x100))
    (Float.ofNat (v % 0x100))

/-! ## Reading -/

/-- The Kelvin sign, whose lower case is the letter k. -/
def kelvin : Text := [0xe2, 0x84, 0xaa]

/-- The dotted capital I, whose lower case is the letter i. -/
def dottedI : Text := [0xc4, 0xb0]

/-- Lower case as far as it can make a colour: of the letters outside ASCII only two have an ASCII
letter as their lower case. -/
def fold (s : Text) : Text :=
  Text.replace kelvin "k" (Text.replace dottedI "i" s.lower)

/-- The value of six hexadecimal digits. -/
def hex6? (s : Text) : Option Nat :=
  if s.length ≠ 6 then none
  else s.foldl (fun n c => do return (← n) * 16 + (← hexValue? c)) (some 0)

/-- The packed value of three or six hexadecimal digits. -/
def hex? : Text → Option Nat
  | [r, g, b] => hex6? [r, r, g, g, b, b]
  | s => hex6? s

/-- A colour text: a hash sign and three or six hexadecimal digits, or a name, in any case. -/
def ofText? (s : Text) : Option Colour :=
  let s := fold s
  if s = ("transparent" : Text) then some transparent
  else
    match Palette.value? s, s with
    | some v, _ => some (ofPacked v)
    | none, hashSign :: digits => (hex? digits).map ofPacked
    | none, _ => none

/-! ## Writing -/

/-- A channel as a byte: the rounded size, by remainders of 255 when it is larger than that. -/
def byte (x : Float) : Nat :=
  let size := Decimal.nearestSize x
  if 255 < size then size % 255 else size

/-- The packed value of three channels. -/
def packed (r g b : Float) : Nat := byte r * 0x10000 + byte g * 0x100 + byte b

/-- The text of a packed value: its name in the palette or six hexadecimal digits. -/
def packedText (palette : Palette) (v : Nat) : Text :=
  match palette.name? v with
  | some name => name
  | none => hashSign :: Text.ofHex 6 v

/-- The text of a colour. -/
def text (palette : Palette) : Colour → Text
  | transparent => "transparent"
  | rgb r g b => packedText palette (packed r g b)

/-- Whether two colours are written alike. -/
def same : Colour → Colour → Bool
  | transparent, transparent => true
  | rgb r g b, rgb r' g' b' => packed r g b == packed r' g' b'
  | _, _ => false

/-! ## Calculating -/

/-- The operations that work on each channel. -/
inductive ChannelOp where
  | add
  | sub
  | mul
  | div
  | mod
  | bitAnd
  | bitOr
  | bitXor
  deriving DecidableEq, Repr

/-- A word as a channel. -/
def ofWord (w : Int64) : Float := Float.ofInt w.toInt

/-- One channel of a result. -/
def ChannelOp.apply (op : ChannelOp) (a b : Float) : Except Fault Float :=
  match op with
  | add => .ok (a + b)
  | sub => .ok (a - b)
  | mul => .ok (a * b)
  | div => if b == 0 then .error (.of .typeMismatch "division by zero") else .ok (a / b)
  | mod =>
    if b == 0 then .error (.of .typeMismatch "division by zero")
    else .ok (Decimal.remainder a b)
  | bitAnd => .ok (ofWord (toWord a &&& toWord b))
  | bitOr => .ok (ofWord (toWord a ||| toWord b))
  | bitXor => .ok (ofWord (toWord a ^^^ toWord b))

/-- An operation channel by channel. What is transparent stays so. -/
def combine (op : ChannelOp) : Colour → Colour → Except Fault Colour
  | transparent, _ => .ok transparent
  | rgb .., transparent => .ok transparent
  | rgb r g b, rgb r' g' b' => do
    return rgb (← op.apply r r') (← op.apply g g') (← op.apply b b')

/-- The same operation on all three channels. -/
def map (f : Float → Float) : Colour → Colour
  | transparent => transparent
  | rgb r g b => rgb (f r) (f g) (f b)

/-- The channels as words with all bits inverted. -/
def invert (c : Colour) : Colour := c.map fun x => ofWord (~~~ (toWord x))

/-- The channels as words shifted to the left by `n` bits; by 64 and more nothing is left. -/
def shiftLeft (n : Nat) (c : Colour) : Colour :=
  c.map fun x => ofWord (Int64.ofInt ((toWord x).toInt * Int.pow 2 (min n 64)))

/-- The channels as words shifted to the right by `n` bits, keeping their sign. -/
def shiftRight (n : Nat) (c : Colour) : Colour :=
  c.map fun x => ofWord (Int64.ofInt (Int.fdiv (toWord x).toInt (Int.pow 2 (min n 64))))

end Colour

end IndentedSass.Script
