import IndentedSass.Decimal.Reader
import IndentedSass.Fault

/-!
# Sizes

A size is a number of bytes with an optional unit: `1.5 GiB`, `512k`. Every step from one unit to
the next is a factor of 1024.
-/

namespace IndentedSass.Settings.ByteSize
open Ascii

/-- Why a text is no size. -/
inductive SizeFault where
  | malformed
  | badSuffix (suffix : Text)
  | badNumber (number : Text) (fault : Decimal.NumberFault)
  deriving DecidableEq, Repr

/-- The message for the text `s`. -/
def SizeFault.message (s : Text) : SizeFault → Text
  | .malformed => "invalid size: '" ++ s ++ "'"
  | .badSuffix suffix => "invalid suffix: '" ++ suffix ++ "'"
  | .badNumber number fault => fault.message "ParseFloat" number

/-- A byte that can end the number. -/
def endsNumber (c : UInt8) : Bool := isDigit c || c == dot || c == space

/-- The number and the suffix: the number ends with the last byte that can end one, which is left
out if it is a space. -/
def split? (s : Text) : Option (Text × Text) :=
  let suffix : Text := (s.reverse.takeWhile fun c => !endsNumber c).reverse
  match s.reverse.dropWhile fun c => !endsNumber c with
  | [] => none
  | last :: before =>
    some (if last == space then before.reverse else (last :: before).reverse, suffix)

/-- The factor of a unit letter. -/
def factor? (c : UInt8) : Option Float :=
  let powers : List (UInt8 × Nat) := [(0x6b, 1), (0x6d, 2), (0x67, 3), (0x74, 4), (0x70, 5)]
  (powers.lookup c).map fun n => (Nat.pow 1024 n).toUInt64.toFloat

/-- The factor of a suffix: none and `b` mean bytes, a unit letter may have `b` or `ib` behind
it. -/
def suffixFactor (suffix : Text) : Except SizeFault Float := do
  if suffix.length > 3 then throw (.badSuffix suffix)
  let small := suffix.lower
  match small with
  | [] => return 1
  | letter :: rest =>
    if small = ("b" : Text) then return 1
    match factor? letter with
    | some f =>
      if [[], ("b" : Text), ("ib" : Text)].contains rest then return f
      else throw (.badSuffix small)
    | none => throw (.badSuffix small)

/-- The number of bytes; a fraction of a byte is dropped. -/
def read (s : Text) : Except SizeFault Int := do
  match split? s with
  | none => throw .malformed
  | some (number, suffix) =>
    match Decimal.read number with
    | .error fault => throw (.badNumber number fault)
    | .ok size =>
      if size < 0 then throw .malformed
      let f ← suffixFactor suffix
      return Decimal.truncate (size * f)

end IndentedSass.Settings.ByteSize
