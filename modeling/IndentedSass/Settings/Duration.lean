import IndentedSass.Decimal.Binary
import IndentedSass.Fault

/-!
# Durations

A duration is a sum of decimal numbers with units, such as `1m30s` or `1.5h`, with an optional sign
in front. It is counted in nanoseconds and fits into 64 bits.
-/

namespace IndentedSass.Settings.Duration
open Ascii

/-- The units in nanoseconds. -/
def units : List (Text × Nat) :=
  [("ns", 1), ("us", 1000), ("µs", 1000), ("μs", 1000), ("ms", 1000000), ("s", 1000000000),
   ("m", 60000000000), ("h", 3600000000000)]

/-- A byte of a number. -/
def isNumeric (c : UInt8) : Bool := c == dot || isDigit c

/-- The numbers of a duration, each with the unit behind it. Only the first number and the last
unit can be empty. -/
def parts : Text → List (Text × Text)
  | [] => []
  | c :: s =>
    match parts s with
    | [] => [if isNumeric c then ([c], []) else ([], [c])]
    | (number, unit) :: rest =>
      if isNumeric c then (c :: number, unit) :: rest
      else if number.isEmpty then ([], c :: unit) :: rest
      else ([], [c]) :: (number, unit) :: rest

/-- A text in quotes; bytes that are not plain ASCII appear in hexadecimal. -/
def quoted (s : Text) : Text :=
  let shown : Text := s.flatMap fun c =>
    if c < space || 0x80 ≤ c then "\\x" ++ Text.ofHex 2 c.toNat
    else if c == quote || c == backslash then [backslash, c]
    else [c]
  quote :: shown ++ [quote]

/-- Why a text is no duration. -/
inductive DurationFault where
  | malformed
  | missingUnit
  | unknownUnit (unit : Text)
  deriving DecidableEq, Repr

/-- The message for the text `s`. -/
def DurationFault.message (s : Text) : DurationFault → Text
  | .malformed => "time: invalid duration " ++ quoted s
  | .missingUnit => "time: missing unit in duration " ++ quoted s
  | .unknownUnit unit => "time: unknown unit " ++ quoted unit ++ " in duration " ++ quoted s

/-- The value of decimal digits. -/
def digitsValue (digits : Text) : Nat := digits.foldl (fun n c => 10 * n + (c - 0x30).toNat) 0

/-- The digits behind a point, as far as their value fits into 63 bits: the value and how many
there are. -/
def fraction (digits : Text) : Nat × Nat :=
  let (n, places, _) := digits.foldl (fun (n, places, full) c =>
    let next := 10 * n + (c - 0x30).toNat
    if full || n > (Nat.pow 2 63 - 1) / 10 || next > Nat.pow 2 63 then (n, places, true)
    else (next, places + 1, false)) (0, 0, false)
  (n, places)

/-- The nanoseconds of a fraction of a unit, worked out in double precision. -/
def fractionTime (f places unit : Nat) : Nat :=
  let scale := (List.range places).foldl (fun x _ => x * 10) (1.0 : Float)
  (Decimal.truncate (f.toUInt64.toFloat * (unit.toUInt64.toFloat / scale))).toNat

/-- The nanoseconds of one number with its unit. -/
def part (number unit : Text) : Except DurationFault Nat := do
  let whole : Text := number.takeWhile isDigit
  let v := digitsValue whole
  if number.isEmpty || v > Nat.pow 2 63 then throw .malformed
  let behind : Text := number.drop whole.length
  let digits : Text := (behind.drop 1).takeWhile isDigit
  if whole.isEmpty && digits.isEmpty then throw .malformed
  if unit.isEmpty || (behind.drop 1).length > digits.length then throw .missingUnit
  match units.lookup unit with
  | none => throw (.unknownUnit unit)
  | some size =>
    let (f, places) := fraction digits
    let total := v * size + (if f = 0 then 0 else fractionTime f places size)
    if v > Nat.pow 2 63 / size || total > Nat.pow 2 63 then throw .malformed
    return total

/-- The sum of the parts; it may not exceed 63 bits on the way. -/
def sum : (total : Nat) → List (Text × Text) → Except DurationFault Nat
  | total, [] => .ok total
  | total, (number, unit) :: rest => do
    let d ← part number unit
    if total + d > Nat.pow 2 63 then throw .malformed
    sum (total + d) rest

/-- The nanoseconds of a duration. -/
def read (s : Text) : Except DurationFault Int := do
  let (negative, rest) : Bool × Text := match s with
    | plus :: rest => (false, rest)
    | minus :: rest => (true, rest)
    | _ => (false, s)
  if rest = ("0" : Text) then return 0
  if rest.isEmpty then throw .malformed
  let total ← sum 0 (parts rest)
  if negative then return -(total : Int)
  if total = Nat.pow 2 63 then throw .malformed
  return total

end IndentedSass.Settings.Duration
