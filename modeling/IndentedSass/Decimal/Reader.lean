import IndentedSass.Decimal.Binary
import IndentedSass.Text.Quoted

/-!
# Reading numbers

The grammar of number texts: an optional sign, decimal digits with an optional point and an
optional exponent; or hexadecimal digits after `0x` with an optional point and a binary exponent;
or one of the words for infinity and for what is not a number. Single underscores may stand between
digits. The value is the nearest number of double precision.
-/

namespace IndentedSass.Decimal
open Ascii

/-- Why a text is not a number. -/
inductive NumberFault where
  | malformed
  | outOfRange
  deriving DecidableEq, Repr

/-- The wording of the fault. -/
def NumberFault.reason : NumberFault → Text
  | .malformed => "invalid syntax"
  | .outOfRange => "value out of range"

/-- The message for a text that `reader` could not read as a number. -/
def NumberFault.message (reader s : Text) (fault : NumberFault) : Text :=
  "strconv." ++ reader ++ ": parsing " ++ s.quoted ++ ": " ++ fault.reason

/-- The sign of a number text, and what follows it. -/
def sign : Text → Bool × Text
  | plus :: s => (false, s)
  | minus :: s => (true, s)
  | s => (false, s)

/-- What the underscores of a number text depend on: the byte before. -/
inductive Mark where
  | start
  | digit
  | underscore
  | other
  deriving DecidableEq

/-- Whether every underscore stands between two digits, after a byte marked `last`. -/
def underscoresFit (isDigitByte : UInt8 → Bool) : (last : Mark) → Text → Bool
  | last, [] => last != .underscore
  | last, c :: s =>
    if isDigitByte c then underscoresFit isDigitByte .digit s
    else if c == underscore then last == .digit && underscoresFit isDigitByte .underscore s
    else last != .underscore && underscoresFit isDigitByte .other s

/-- The digits of a mantissa: their value, how many stand after the point, whether there is one,
and what follows. -/
structure Mantissa where
  value : Nat
  places : Nat
  any : Bool
  rest : Text

/-- Reads a mantissa in base `base`; `pointed` says that the point has been passed. -/
def mantissa (base : Nat) : (pointed : Bool) → (m : Mantissa) → Text → Mantissa
  | _, m, [] => { m with rest := [] }
  | pointed, m, c :: s =>
    if c == underscore then mantissa base pointed m s
    else if c == dot && !pointed then mantissa base true m s
    else
      match (hexValue? c).filter (· < base) with
      | some d =>
        let places := if pointed then m.places + 1 else m.places
        mantissa base pointed { m with value := m.value * base + d, places, any := true } s
      | none => { m with rest := c :: s }

/-- An exponent after its letter: a sign and at least one digit. -/
def exponent? (s : Text) : Option Int :=
  let (negative, digits) := sign s
  if (digits.head?.map isDigit).getD false &&
      digits.all (fun c => isDigit c || c == underscore) then
    let n : Nat := (digits.filter isDigit).foldl
      (fun n c => if n < 10000 then 10 * n + (c - 0x30).toNat else n) 0
    some (if negative then -(n : Int) else n)
  else none

/-- `value · base ^ exp` as a number, or nothing when it is too large. Its binary logarithm lies
between `low` and `high`, and a number beyond double precision by these bounds is not worked out. -/
def scale? (negative : Bool) (value : Nat) (base : Nat) (exp : Int) : Option Float :=
  let whole : Int := value.log2
  let down : Int := exp * base.log2
  let up : Int := exp * (base.log2 + 1)
  let low := whole + min down up
  let high := whole + 1 + max down up
  let x :=
    if value = 0 || high < -6000 then ofFraction negative 0 1
    else if 6000 < low then ofFraction negative (Nat.pow 2 1024) 1
    else if exp < 0 then ofFraction negative value (Nat.pow base (-exp).toNat)
    else ofFraction negative (value * Nat.pow base exp.toNat) 1
  if x.isInf then none else some x

/-- A number in digits, after its sign. -/
def readDigits (negative : Bool) (s : Text) : Except NumberFault Float :=
  let hex? : Option Text :=
    match s with
    | zero :: x :: rest => if toLower x == 0x78 && !rest.isEmpty then some rest else none
    | _ => none
  let m := mantissa (if hex?.isSome then 16 else 10) false ⟨0, 0, false, []⟩ (hex?.getD s)
  let marks := match hex? with
    | some rest => underscoresFit (fun c => (hexValue? c).isSome) .digit rest
    | none => underscoresFit isDigit .start s
  let letter : UInt8 := if hex?.isSome then 0x70 else 0x65
  let exp? : Option Int :=
    match m.rest with
    | [] => if hex?.isSome then none else some 0
    | c :: rest => if toLower c == letter then exponent? rest else none
  match exp? with
  | none => .error .malformed
  | some exp =>
    if !m.any || !marks then .error .malformed
    else
      let x := if hex?.isSome then scale? negative m.value 2 (exp - 4 * m.places)
        else scale? negative m.value 10 (exp - m.places)
      match x with
      | some x => .ok x
      | none => .error .outOfRange

/-- A number text of double precision. -/
def read (s : Text) : Except NumberFault Float :=
  let (negative, rest) := sign s
  let word := rest.lower
  if word = ("inf" : Text) || word = ("infinity" : Text) then
    .ok (if negative then -(1 / 0) else 1 / 0)
  else if s.lower = ("nan" : Text) then .ok (0 / 0)
  else readDigits negative rest

end IndentedSass.Decimal
