import IndentedSass.Script.Token

/-!
# Functions

The functions of expressions. A name that is none of them, such as `url`, passes through: the call
is written back as text, with those of its arguments evaluated that are expressions.
-/

namespace IndentedSass.Script
open Ascii

/-- The functions that are evaluated. -/
inductive Builtin where
  | rgb
  | hsl
  | percentage
  | round
  | ceil
  | floor
  | abs
  deriving DecidableEq, Repr

namespace Builtin

/-- The function of a name. -/
def ofName? (name : Text) : Option Builtin :=
  if name = ("rgb" : Text) then some rgb
  else if name = ("hsl" : Text) then some hsl
  else if name = ("percentage" : Text) then some percentage
  else if name = ("round" : Text) then some round
  else if name = ("ceil" : Text) then some ceil
  else if name = ("floor" : Text) then some floor
  else if name = ("abs" : Text) then some abs
  else none

/-- The number of arguments. -/
def arity : Builtin → Nat
  | rgb | hsl => 3
  | percentage | round | ceil | floor | abs => 1

/-- A value as a number. -/
def expectNumber : Value → Except Fault Number
  | .number n => .ok n
  | v => .error (.of .typeMismatch (v.typeName ++ " is not a number"))

/-- The fault of a colour channel, which are numbered from one. -/
def badChannel (i : Nat) (reason : Text) : Fault :=
  .of .typeMismatch ("channel " ++ Text.ofNat (i + 1) ++ " " ++ reason)

/-- Channel `i` of a colour from its argument: a percentage of 255 or a number up to it. -/
def channel (i : Nat) (v : Value) : Except Fault Float := do
  let n ← expectNumber v
  if n.unit = ("%" : Text) then
    if n.value < 0 || n.value > 100 then throw (badChannel i "must be between 0% and 100%")
    return (n.value * 2.55).round
  else if n.unit.isEmpty then
    if n.value < 0 || n.value > 255 then throw (badChannel i "must be between 0 and 255")
    return n.value
  else throw (badChannel i ("has unexpected unit " ++ n.unit))

/-- One channel from the two bounds of the colour and a hue in turns. -/
def hueChannel (m1 m2 hue : Float) : Float :=
  let h := if hue < 0 then hue + 1 else hue
  let h := if h > 1 then h - 1 else h
  if h * 6 < 1 then m1 + (m2 - m1) * h * 6
  else if h * 2 < 1 then m2
  else if h * 3 < 2 then m1 + (m2 - m1) * (2.0 / 3.0 - h) * 6
  else m1

/-- A colour from hue in degrees, saturation and lightness in per cent. -/
def fromHsl (h s l : Float) : Except Fault Colour :=
  if s < 0 || s > 100 then
    .error (.of .typeMismatch "saturation must be between 0% and 100%")
  else if l < 0 || l > 100 then
    .error (.of .typeMismatch "lightness must be between 0% and 100%")
  else
    let h := Decimal.remainder (Decimal.remainder h 360 + 360) 360 / 360
    let s := s / 100
    let l := l / 100
    let m2 := if l ≤ 0.5 then l * (s + 1) else l + s - l * s
    let m1 := l * 2 - m2
    .ok (.rgb (hueChannel m1 m2 (h + 1.0 / 3.0) * 255).round (hueChannel m1 m2 h * 255).round
      (hueChannel m1 m2 (h - 1.0 / 3.0) * 255).round)

/-- A function of a single number. -/
def onNumber (f : Float → Float) (args : List Value) : Except Fault Value :=
  match args with
  | v :: _ => do
    let n ← expectNumber v
    return .number { n with value := f n.value }
  | [] => .ok .empty

/-- The value of a function for as many arguments as it takes. -/
def apply (f : Builtin) (args : List Value) : Except Fault Value :=
  match f, args with
  | rgb, [r, g, b] => do
    return .colour (.rgb (← channel 0 r) (← channel 1 g) (← channel 2 b))
  | hsl, [h, s, l] => do
    let h ← expectNumber h
    let s ← expectNumber s
    let l ← expectNumber l
    return .colour (← fromHsl h.value s.value l.value)
  | percentage, v :: _ => do
    let n ← expectNumber v
    if n.hasUnit then throw n.notUnitless
    return .number ⟨n.value * 100, "%"⟩
  | round, args => onNumber Float.round args
  | ceil, args => onNumber Float.ceil args
  | floor, args => onNumber Float.floor args
  | abs, args => onNumber Float.abs args
  | _, _ => .ok .empty

end Builtin

/-- Tags a fault with the function it came up in. -/
def inFunction {α : Type} (name : Text) (r : Except Halt α) : Except Halt α :=
  r.mapError (Halt.tagged (name ++ "()"))

/-- Whether an argument without a value passes through as it is: it is no expression at all. -/
def passesThrough : Halt → Bool
  | .fault f => f.is .badLiteral || f.is .unmatchedParen || f.is .arityMismatch
  | .overflow _ => false

/-- The texts of the arguments of a function that passes through. -/
def passedArguments (palette : Palette) (eval : Text → Except Halt Value) (verbatim : Bool) :
    List Text → Except Halt (List Text)
  | [] => .ok []
  | raw :: rest => do
    let text ←
      if verbatim then .ok raw
      else
        match eval raw with
        | .ok v => .ok (v.text palette)
        | .error halt => if passesThrough halt then .ok raw else .error halt
    let more ← passedArguments palette eval verbatim rest
    return text :: more

/-- The values of the arguments of a function, from left to right. -/
def argumentValues (name : Text) (eval : Text → Except Halt Value) :
    List Text → Except Halt (List Value)
  | [] => .ok []
  | raw :: rest => do
    let v ← inFunction name (eval raw)
    let more ← argumentValues name eval rest
    return v :: more

/-- The value of a call, where `eval` evaluates arguments. -/
def call (palette : Palette) (eval : Text → Except Halt Value) (name : Text) (args : List Text) :
    Except Halt Value :=
  match Builtin.ofName? name with
  | some f =>
    if args.length ≠ f.arity then
      .error (.of .arityMismatch (name ++ "() expects " ++ Text.ofNat f.arity ++
        " arguments, got " ++ Text.ofNat args.length))
    else do
      let values ← argumentValues name eval args
      inFunction name ((f.apply values).mapError .fault)
  | none => do
    let texts ← passedArguments palette eval (name == ("url" : Text)) args
    return .string (name ++ "(" ++ Text.join ", " texts ++ ")") false

end IndentedSass.Script
