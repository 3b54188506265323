import IndentedSass.Decimal.Reader

/-!
# Reading integers

Integers of 64 bits: an optional sign and digits. In the plain form the digits are decimal; in the
marked form `0x`, `0o`, `0b` or a leading zero chooses another base, and single underscores may
stand between digits.
-/

namespace IndentedSass.Decimal
open Ascii

/-- The value of a digit or letter in the largest base. -/
def digitValue? (c : UInt8) : Option Nat :=
  if isDigit c then some (c - 0x30).toNat
  else if isLetter c then some ((toLower c - 0x61).toNat + 10)
  else none

/-- Reads digits behind the value `n`; a text is out of range as soon as 64 bits are exceeded, and
underscores are passed over where they are allowed. -/
def readDigitsFrom (base : Nat) (underscores : Bool) : (n : Nat) → Text → Except NumberFault Nat
  | n, [] => .ok n
  | n, c :: s =>
    if underscores && c == underscore then readDigitsFrom base underscores n s
    else
      match (digitValue? c).filter (· < base) with
      | none => .error .malformed
      | some d =>
        if n * base + d < Nat.pow 2 64 then readDigitsFrom base underscores (n * base + d) s
        else .error .outOfRange

/-- Decimal digits. -/
def readNat (s : Text) : Except NumberFault Nat :=
  if s.isEmpty then .error .malformed else readDigitsFrom 10 false 0 s

/-- The base that the start of a text marks, and the digits behind the mark. -/
def markedBase (s : Text) : Nat × Text :=
  match s with
  | zero :: letter :: digit :: rest =>
    if toLower letter == 0x62 then (2, digit :: rest)
    else if toLower letter == 0x6f then (8, digit :: rest)
    else if toLower letter == 0x78 then (16, digit :: rest)
    else (8, letter :: digit :: rest)
  | zero :: rest => (8, rest)
  | _ => (10, s)

/-- Digits in a marked base. -/
def readMarkedNat (s : Text) : Except NumberFault Nat := do
  if s.isEmpty then throw .malformed
  let (base, digits) := markedBase s
  let n ← readDigitsFrom base true 0 digits
  let isDigitByte (c : UInt8) : Bool := if base = 16 then (hexValue? c).isSome else isDigit c
  let fits := if digits.length + 2 = s.length then underscoresFit isDigitByte .digit digits
    else underscoresFit isDigitByte .start s
  if fits then return n else throw .malformed

/-- An integer, given how its digits are read. -/
def readSigned (digits : Text → Except NumberFault Nat) (s : Text) : Except NumberFault Int := do
  let (negative, rest) := sign s
  let n ← digits rest
  if negative then
    if n ≤ Nat.pow 2 63 then return -(n : Int) else throw .outOfRange
  else
    if n < Nat.pow 2 63 then return n else throw .outOfRange

/-- A decimal integer of 64 bits. -/
def readInt (s : Text) : Except NumberFault Int := readSigned readNat s

/-- An integer of 64 bits in a marked base. -/
def readMarkedInt (s : Text) : Except NumberFault Int := readSigned readMarkedNat s

/-- The message for a text that is no integer. -/
def intMessage (s : Text) (fault : NumberFault) : Text := fault.message "ParseInt" s

end IndentedSass.Decimal
