import IndentedSass.Decimal.Binary
import IndentedSass.Text

/-!
# Shortest decimals

A number is written with the fewest decimal digits that read back as the same number, and among
those with the digits nearest to it; always positionally, never with an exponent.
-/

namespace IndentedSass.Decimal
open Ascii

/-- A decimal `digits · 10 ^ exp`. -/
structure Numeral where
  digits : Nat
  exp : Int
  deriving DecidableEq, Repr

/-- An interval of fractions over a common denominator, together with a point in it. The ends
belong to it when `closed` holds. -/
structure Interval where
  low : Nat
  point : Nat
  high : Nat
  den : Nat
  closed : Bool
  deriving Repr

/-- The fractions that round to `mant · 2 ^ exp`. Below a power of two numbers lie twice as
dense. -/
def Dyadic.interval (d : Dyadic) : Interval :=
  let below := if d.mant = Nat.pow 2 52 && d.exp ≠ -1074 then 1 else 2
  let up := Nat.pow 2 (d.exp - 2).toNat
  let down := Nat.pow 2 (2 - d.exp).toNat
  ⟨(4 * d.mant - below) * up, 4 * d.mant * up, (4 * d.mant + 2) * up, down, d.mant % 2 = 0⟩

namespace Interval

/-- Whether `num / den` lies in the interval. -/
def holds (i : Interval) (num den : Nat) : Bool :=
  if i.closed then i.low * den ≤ num * i.den && num * i.den ≤ i.high * den
  else i.low * den < num * i.den && num * i.den < i.high * den

/-- The multiple of `10 ^ exp` in the interval that is nearest to its point, if the interval holds
one of the two multiples around the point. Of two that are equally near the even one is taken. -/
def onGrid? (i : Interval) (exp : Int) : Option Nat :=
  let up := Nat.pow 10 exp.toNat
  let down := Nat.pow 10 (-exp).toNat
  let below := i.point * down / (i.den * up)
  let above := below + 1
  let distBelow := i.point * down - below * up * i.den
  let distAbove := above * up * i.den - i.point * down
  match i.holds (below * up) down, i.holds (above * up) down with
  | true, true =>
    let up := distAbove < distBelow || distAbove = distBelow && below % 2 = 1
    some (if up then above else below)
  | true, false => some below
  | false, true => some above
  | false, false => none

/-- The first hit on ever finer grids. -/
def search (i : Interval) : (fuel : Nat) → (exp : Int) → Numeral
  | 0, exp => ⟨0, exp⟩
  | fuel + 1, exp =>
    match i.onGrid? exp with
    | some n => ⟨n, exp⟩
    | none => search i fuel (exp - 1)

/-- The exponent of the leading decimal digit of the point. -/
def magnitude (i : Interval) : Int :=
  if i.den ≤ i.point then ((Nat.toDigits 10 (i.point / i.den)).length : Int) - 1
  else -((Nat.toDigits 10 (i.den / i.point)).length : Int)

end Interval

/-- The shortest decimal of a number other than zero. Seventeen digits always suffice. -/
def shortest (d : Dyadic) : Numeral :=
  let i := d.interval
  i.search 20 (i.magnitude + 1)

/-- Digits with the decimal point put in its place, without idle zeros at the end. -/
def Numeral.positional (d : Numeral) : Text :=
  let digits := Text.ofNat d.digits
  if 0 ≤ d.exp then digits ++ List.replicate d.exp.toNat zero
  else
    let places := (-d.exp).toNat
    let padded := List.replicate (places + 1 - digits.length) zero ++ digits
    let whole := padded.take (padded.length - places)
    let fraction := Text.trimEndWhile (· == zero) (padded.drop (padded.length - places))
    if fraction.isEmpty then whole else whole ++ dot :: fraction

/-- The text of a number in shortest positional form. -/
def format (x : Float) : Text :=
  match Dyadic.ofFloat? x with
  | none => if x.isNaN then "NaN" else if x < 0 then "-Inf" else "+Inf"
  | some d =>
    let size : Text := if d.mant = 0 then "0" else (shortest d).positional
    if d.negative then minus :: size else size

end IndentedSass.Decimal
