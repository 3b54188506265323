import IndentedSass.Decimal.Shortest
import IndentedSass.Decimal.Reader
import IndentedSass.Fault

/-!
# Numbers

A number of a script has a unit, which may be empty. Two numbers are brought to one unit before
they are added, compared or divided.
-/

namespace IndentedSass.Script
open Ascii

/-- A number with the unit written behind it. -/
structure Number where
  value : Float
  unit : Text

namespace Number

/-- The units that a literal may have. -/
def units : List Text := ["%", "em", "ex", "px", "in", "cm", "mm", "pt", "pc"]

/-- How many of a unit make an inch. -/
def perInch : List (Text × Float) :=
  [("em", 6), ("ex", 3), ("px", 96), ("in", 1), ("cm", 2.54), ("mm", 25.4), ("pt", 72), ("pc", 6)]

/-- A byte of a unit. -/
def isUnit (c : UInt8) : Bool := c == percent || isLetter c

/-- A number literal: a number text and a unit. -/
def ofText (s : Text) : Except Fault Number :=
  let unit : Text := (s.reverse.takeWhile isUnit).reverse
  let digits : Text := s.trimEndWhile isUnit
  if !unit.isEmpty && !units.contains unit then
    .error (.of .badLiteral ("invalid unit " ++ unit.quoted ++ " in " ++ s.quoted))
  else
    match Decimal.read digits with
    | .ok value => .ok ⟨value, unit⟩
    | .error fault =>
      .error (.language .badLiteral s .none (some (.plain (fault.message "ParseFloat" digits))))

/-- Whether there is a unit. -/
def hasUnit (n : Number) : Bool := !n.unit.isEmpty

/-- The value as it is written: pixels rounded down, all else to four decimals. -/
def written (n : Number) : Float :=
  let x := if n.unit = ("px" : Text) then n.value.floor else (n.value * 10000).round / 10000
  if x == 0 then 0 else x

/-- The text of a number. -/
def text (n : Number) : Text := Decimal.format n.written ++ n.unit

/-- Brings `other` to the unit of `n`. Without a unit of its own, `n` takes the other one, and a
number without unit fits any. -/
def align (n other : Number) : Except Fault (Number × Number) :=
  if other.unit.isEmpty || other.unit = n.unit then .ok (n, other)
  else if n.unit.isEmpty then .ok (⟨n.value, other.unit⟩, other)
  else
    match perInch.lookup n.unit, perInch.lookup other.unit with
    | some a, some b => .ok (n, ⟨other.value * a / b, n.unit⟩)
    | _, _ =>
      .error (.of .unitMismatch ("incompatible units: " ++ n.unit ++ " and " ++ other.unit))

/-- The number in another unit. Without a unit on either side it stays as it is. -/
def inUnit (n : Number) (unit : Text) : Except Fault Number := do
  let (_, n) ← align ⟨0, unit⟩ n
  return n

/-- The fault of a number with a unit where none is allowed. -/
def notUnitless (n : Number) : Fault := .of .typeMismatch (n.text ++ " is not unitless")

/-- The value as an integer of 64 bits; neither a unit nor a fraction is allowed. -/
def toInt (n : Number) : Except Fault Int :=
  if n.hasUnit then .error n.notUnitless
  else if !Decimal.isWhole n.value then
    .error (.of .typeMismatch (n.text ++ " is not an integer"))
  else .ok (Decimal.toWord n.value).toInt

/-! ## Calculating -/

/-- The operations on two numbers. -/
inductive Op where
  | add
  | sub
  | mul
  | div
  | mod
  deriving DecidableEq, Repr

/-- The result of an operation. A quotient of two numbers with units has none. -/
def calculate (op : Op) (n other : Number) : Except Fault Number := do
  let (a, b) ← n.align other
  match op with
  | .add => return { a with value := a.value + b.value }
  | .sub => return { a with value := a.value - b.value }
  | .mul => return { a with value := a.value * b.value }
  | .div =>
    if b.value == 0 then throw (.of .typeMismatch "division by zero")
    return ⟨a.value / b.value, if other.hasUnit && n.hasUnit then [] else a.unit⟩
  | .mod =>
    if b.value == 0 then throw (.of .typeMismatch "modulo by zero")
    return { a with value := Decimal.remainder a.value b.value }

end Number

end IndentedSass.Script
