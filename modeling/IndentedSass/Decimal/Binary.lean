/-!
# Binary floating point numbers

A finite number of double precision is `± m · 2 ^ q` with natural `m` below `2 ^ 53`. This module
takes numbers apart into that form and rounds fractions to the nearest number, ties to an even
`m`. Remainders and integer parts are exact on that form.
-/

namespace IndentedSass.Decimal

/-- The number `± mant · 2 ^ exp`. -/
structure Dyadic where
  negative : Bool
  mant : Nat
  exp : Int
  deriving DecidableEq, Repr

/-- The parts of a finite number; nothing for infinities and for what is not a number. -/
def Dyadic.ofFloat? (x : Float) : Option Dyadic :=
  let bits : Nat := x.toBits.toNat
  let negative := Nat.pow 2 63 ≤ bits
  let biased : Nat := bits / Nat.pow 2 52 % Nat.pow 2 11
  let fraction : Nat := bits % Nat.pow 2 52
  if biased = 0x7ff then none
  else if biased = 0 then some ⟨negative, fraction, -1074⟩
  else some ⟨negative, Nat.pow 2 52 + fraction, (biased : Int) - 1075⟩

/-- The quotient of two natural numbers, rounded to the nearest, ties to even. -/
def roundDiv (num den : Nat) : Nat :=
  let q := num / den
  let r := num % den
  if 2 * r < den then q else if den < 2 * r then q + 1 else q + q % 2

/-- The bits of `mant · 2 ^ exp` for `mant ≤ 2 ^ 53` and `-1074 ≤ exp`, where a mantissa below
`2 ^ 52` needs the least exponent. Infinity when the number is too large. -/
def pack (mant : Nat) (exp : Int) : Nat :=
  let (mant, exp) := if mant = Nat.pow 2 53 then (Nat.pow 2 52, exp + 1) else (mant, exp)
  if mant < Nat.pow 2 52 then mant
  else if 971 < exp then 0x7ff * Nat.pow 2 52
  else (exp + 1075).toNat * Nat.pow 2 52 + (mant - Nat.pow 2 52)

/-- The number nearest to `num / den`, with the given sign. -/
def ofFraction (negative : Bool) (num den : Nat) : Float :=
  let scaled (exp : Int) : Nat :=
    if exp < 0 then roundDiv (num * Nat.pow 2 (-exp).toNat) den
    else roundDiv num (den * Nat.pow 2 exp.toNat)
  let size : Int := (num.log2 : Int) - den.log2
  let fits (exp : Int) : Bool :=
    if exp < 0 then num * Nat.pow 2 (-exp).toNat < Nat.pow 2 53 * den
    else num < Nat.pow 2 53 * (den * Nat.pow 2 exp.toNat)
  let exp := max (-1074) (if fits (size - 53) then size - 53 else size - 52)
  let bits := if num = 0 || den = 0 then 0 else pack (scaled exp) exp
  Float.ofBits ((if negative then Nat.pow 2 63 else 0) + bits).toUInt64

/-- The integer part of a number, rounded towards zero. -/
def Dyadic.truncate (d : Dyadic) : Int :=
  let size : Nat := if d.exp < 0 then d.mant / Nat.pow 2 (-d.exp).toNat
    else d.mant * Nat.pow 2 d.exp.toNat
  if d.negative then -(size : Int) else size

/-- The integer part, rounded towards zero; zero where there is none. -/
def truncate (x : Float) : Int := ((Dyadic.ofFloat? x).map Dyadic.truncate).getD 0

/-- Whether a number has no fraction; infinities have none. -/
def isWhole (x : Float) : Bool :=
  match Dyadic.ofFloat? x with
  | none => !x.isNaN
  | some d => 0 ≤ d.exp || d.mant % Nat.pow 2 (-d.exp).toNat = 0

/-- The integer part as a signed word of 64 bits. What has none, or one that does not fit, becomes
the least word. -/
def toWord (x : Float) : Int64 :=
  match (Dyadic.ofFloat? x).map Dyadic.truncate with
  | none => Int64.minValue
  | some n =>
    if -(Nat.pow 2 63 : Int) ≤ n && n < Nat.pow 2 63 then Int64.ofInt n else Int64.minValue

/-- The integer part as an unsigned word of 64 bits: a negative one wraps around, and one that does
not fit a signed word is counted from there. -/
def toUnsignedWord (x : Float) : UInt64 :=
  let half : Float := 9223372036854775808
  if x < half then (toWord x).toUInt64 else (toWord (x - half)).toUInt64 ^^^ 0x8000000000000000

/-- The size of a number as the nearest natural number, ties upwards; zero where there is none. -/
def nearestSize (x : Float) : Nat :=
  match Dyadic.ofFloat? x with
  | none => 0
  | some d =>
    if d.exp < 0 then (2 * d.mant + Nat.pow 2 (-d.exp).toNat) / (2 * Nat.pow 2 (-d.exp).toNat)
    else d.mant * Nat.pow 2 d.exp.toNat

/-- The remainder of `x` by `y` with the sign of `x`, without rounding. -/
def remainder (x y : Float) : Float :=
  match Dyadic.ofFloat? x, Dyadic.ofFloat? y with
  | some a, some b =>
    if b.mant = 0 then 0 / 0
    else if a.mant = 0 then x
    else
      let low := min a.exp b.exp
      let r := (a.mant * Nat.pow 2 (a.exp - low).toNat) % (b.mant * Nat.pow 2 (b.exp - low).toNat)
      if low < 0 then ofFraction a.negative r (Nat.pow 2 (-low).toNat)
      else ofFraction a.negative (r * Nat.pow 2 low.toNat) 1
  | some _, none => if y.isNaN then y else x
  | none, _ => 0 / 0

end IndentedSass.Decimal
