import IndentedSass.Script.Value

/-!
# Operators

The operators of expressions, how tightly they bind and what they do to values.
-/

namespace IndentedSass.Script
open Ascii

/-- Why an evaluation has no value. -/
inductive Halt where
  /-- The expression is at fault. -/
  | fault (f : Fault)
  /-- A repeated string would have this many bytes, more than any text can have. No fault is
  reported: the machine gives up. -/
  | overflow (length : Nat)

/-- A fault of a kind, with a message. -/
def Halt.of (kind : Kind) (message : Text) : Halt := .fault (.of kind message)

/-- The fault with the place it came up in put before it. -/
def Halt.tagged (tag : Text) : Halt → Halt
  | .fault f => .fault (.tagged tag f)
  | .overflow length => .overflow length

/-- The fault with a position, unless it has one. -/
def Halt.locate (pos : Position) : Halt → Halt
  | .fault f => .fault (f.locate pos)
  | .overflow length => .overflow length

/-- The operators with one operand, which they precede. -/
inductive Unary where
  | negate
  | not
  | invert
  deriving DecidableEq, Repr

/-- The operators with two operands. -/
inductive Binary where
  | mul
  | div
  | mod
  | add
  | sub
  | shiftLeft
  | shiftRight
  | atMost
  | atLeast
  | less
  | greater
  | equal
  | unequal
  | bitAnd
  | bitOr
  | bitXor
  | and
  | or
  | xor
  | pair
  deriving DecidableEq, Repr

/-- An operator of either sort. -/
inductive Operator where
  | unary (op : Unary)
  | binary (op : Binary)
  deriving DecidableEq, Repr

/-- The symbol of an operator in messages. -/
def Unary.symbol : Unary → Text
  | negate => "neg"
  | not => "not"
  | invert => "~"

/-- How tightly an operator binds. -/
def Unary.precedence : Unary → Nat
  | negate => 10
  | invert => 4
  | not => 3

namespace Binary

/-- The symbol of an operator, as it is written. -/
def symbol : Binary → Text
  | mul => "*"
  | div => "/"
  | mod => "%"
  | add => "+"
  | sub => "-"
  | shiftLeft => "<<"
  | shiftRight => ">>"
  | atMost => "<="
  | atLeast => ">="
  | less => "<"
  | greater => ">"
  | equal => "=="
  | unequal => "!="
  | bitAnd => "&"
  | bitOr => "|"
  | bitXor => "^"
  | and => "and"
  | or => "or"
  | xor => "xor"
  | pair => "="

/-- How tightly an operator binds. -/
def precedence : Binary → Nat
  | mul | div | mod => 9
  | add | sub => 8
  | shiftLeft | shiftRight => 7
  | atMost | atLeast | less | greater => 6
  | equal | unequal => 5
  | bitAnd | bitOr | bitXor => 4
  | and | or | xor => 3
  | pair => 2

/-- Whether an operator groups to the right; all others group to the left. -/
def groupsRight (op : Binary) : Bool := op == pair

end Binary

namespace Operator

/-- The symbol of an operator in messages. -/
def symbol : Operator → Text
  | unary op => op.symbol
  | binary op => op.symbol

/-- How tightly an operator binds. -/
def precedence : Operator → Nat
  | unary op => op.precedence
  | binary op => op.precedence

/-- The number of operands. -/
def arity : Operator → Nat
  | unary _ => 1
  | binary _ => 2

end Operator

/-! ## What the operators do -/

/-- The comparisons. -/
inductive Relation where
  | equal
  | unequal
  | less
  | atMost
  | greater
  | atLeast
  deriving DecidableEq, Repr

namespace Relation

/-- A comparison of numbers. -/
def holds (r : Relation) (a b : Float) : Bool :=
  match r with
  | equal => a == b
  | unequal => a != b
  | less => a < b
  | atMost => a ≤ b
  | greater => a > b
  | atLeast => a ≥ b

/-- A comparison of texts, by their order. -/
def ordered (r : Relation) (o : Ordering) : Bool :=
  match r with
  | equal => o == .eq
  | unequal => o != .eq
  | less => o == .lt
  | atMost => o != .gt
  | greater => o == .gt
  | atLeast => o != .lt

/-- The answer for values of different types, if there is one: they are not equal. -/
def mixed? : Relation → Option Bool
  | equal => some false
  | unequal => some true
  | _ => none

end Relation

namespace Binary

/-- The comparison that an operator makes. -/
def relation? : Binary → Option Relation
  | equal => some .equal
  | unequal => some .unequal
  | less => some .less
  | atMost => some .atMost
  | greater => some .greater
  | atLeast => some .atLeast
  | _ => none

/-- The operation on numbers that an operator stands for. -/
def numberOp? : Binary → Option Number.Op
  | add => some .add
  | sub => some .sub
  | mul => some .mul
  | div => some .div
  | mod => some .mod
  | _ => none

/-- The operation on channels that an operator stands for. -/
def channelOp? : Binary → Option Colour.ChannelOp
  | add => some .add
  | sub => some .sub
  | mul => some .mul
  | div => some .div
  | mod => some .mod
  | bitAnd => some .bitAnd
  | bitOr => some .bitOr
  | bitXor => some .bitXor
  | _ => none

end Binary

namespace Value

/-- The fault of an operator that a type does not have. -/
def unsupported (symbol : Text) (a : Value) : Fault :=
  .of .typeMismatch (symbol ++ " is not supported for " ++ a.typeName)

/-- The fault of an operator whose operands do not go together. -/
def inapplicable (symbol left : Text) (b : Value) : Fault :=
  .of .typeMismatch ("cannot apply " ++ symbol ++ " to " ++ left ++ " and " ++ b.typeName)

/-- The fault of a comparison whose operands do not go together. -/
def incomparable (left : Text) (b : Value) : Fault :=
  .of .typeMismatch ("cannot compare " ++ left ++ " and " ++ b.typeName)

/-- A grey of the given size in every channel. -/
def grey (n : Number) : Colour := .rgb n.value n.value n.value

/-- An operator with a number on its left. -/
def applyNumber (op : Binary) (n : Number) (b : Value) : Except Fault Value :=
  match op.relation?, op.numberOp? with
  | some r, _ =>
    match b with
    | number m => do
      let (x, y) ← n.align m
      return boolean (r.holds x.value y.value)
    | _ =>
      match r.mixed? with
      | some answer => .ok (boolean answer)
      | none => .error (incomparable "number" b)
  | none, some f =>
    match b with
    | number m => (n.calculate f m).map number
    | colour c =>
      match op.channelOp? with
      | some g => (Colour.combine g (grey n) c).map colour
      | none => .error (inapplicable op.symbol "number" b)
    | _ => .error (inapplicable op.symbol "number" b)
  | none, none => .error (unsupported op.symbol (number n))

/-- A shift of a colour. -/
def shift (left : Bool) (c : Colour) (b : Value) : Except Fault Value :=
  match b with
  | number n =>
    if n.hasUnit then .error (.of .typeMismatch "shift amount must be a unitless number")
    else
      let by_ := (Decimal.toUnsignedWord n.value).toNat
      .ok (colour (if left then c.shiftLeft by_ else c.shiftRight by_))
  | _ => .error (.of .typeMismatch "shift amount must be a unitless number")

/-- An operator with a colour on its left. -/
def applyColour (op : Binary) (c : Colour) (b : Value) : Except Fault Value :=
  match op.channelOp?, op.relation? with
  | some f, _ =>
    match b with
    | colour d => (Colour.combine f c d).map colour
    | number n => (Colour.combine f c (grey n)).map colour
    | _ => .error (inapplicable op.symbol "colour" b)
  | none, some r =>
    let same := match b with
      | colour d => c.same d
      | _ => false
    match r with
    | .equal => .ok (boolean same)
    | .unequal => .ok (boolean !same)
    | _ => .error (.of .typeMismatch ("cannot order colours with " ++ op.symbol))
  | none, none =>
    match op with
    | .shiftLeft => shift true c b
    | .shiftRight => shift false c b
    | _ => .error (unsupported op.symbol (colour c))

/-- The number of bytes that can be addressed; no text is longer. -/
def lengthLimit : Nat := Nat.pow 2 48

/-- A string repeated; it overflows where the result would be too long. -/
def repeated (s : Text) (times : Int) : Except Halt Text :=
  if times < 0 then
    .error (.of .typeMismatch ("cannot repeat a string " ++ Text.ofInt times ++ " times"))
  else if 1 < times && lengthLimit < s.length * times.toNat then
    .error (.overflow (s.length * times.toNat))
  else .ok (s.times times.toNat)

/-- A string without its first bytes; a negative offset counts from the end. -/
def cutFrom (s : Text) (offset : Int) : Text :=
  let offset := if offset < 0 then offset + s.length else offset
  s.drop offset.toNat

/-- An operator with a string on its left. -/
def applyString (palette : Palette) (op : Binary) (s : Text) (isQuoted : Bool) (b : Value) :
    Except Halt Value :=
  match op.relation?, op with
  | some r, _ =>
    match b with
    | string t _ => .ok (boolean (r.ordered (s.order t)))
    | _ =>
      match r.mixed? with
      | some answer => .ok (boolean answer)
      | none => .error (.fault (incomparable "string" b))
  | none, .add =>
    match b with
    | number n => do return string (← repeated s (← n.toInt.mapError .fault)) isQuoted
    | _ => .ok (string (s ++ b.plainText palette) isQuoted)
  | none, .sub =>
    match b with
    | number n => do return string (cutFrom s (← n.toInt.mapError .fault)) isQuoted
    | _ => .ok (string (Text.replace (b.plainText palette) [] s) isQuoted)
  | none, _ => .error (.fault (unsupported op.symbol (string s isQuoted)))

/-- An operator with a truth value on its left. -/
def applyBoolean (op : Binary) (x : Bool) (b : Value) : Except Fault Value :=
  let same := match b with
    | boolean y => x == y
    | _ => false
  match op with
  | .equal => .ok (boolean same)
  | .unequal => .ok (boolean !same)
  | _ => .error (unsupported op.symbol (boolean x))

end Value

/-- The value of a unary operator. -/
def Unary.apply (op : Unary) (a : Value) : Except Fault Value :=
  match op with
  | not => .ok (.boolean !a.isTruthy)
  | negate =>
    match a with
    | .number n => .ok (.number { n with value := -n.value })
    | .string s false => .ok (.string (minus :: s) false)
    | _ => .error (.of .typeMismatch ("cannot negate " ++ a.typeName))
  | invert =>
    match a with
    | .colour c => .ok (.colour c.invert)
    | _ => .error (Value.unsupported op.symbol a)

/-- The value of a binary operator. -/
def Binary.apply (palette : Palette) (op : Binary) (a b : Value) : Except Halt Value :=
  match op with
  | and => .ok (.boolean (a.isTruthy && b.isTruthy))
  | or => .ok (.boolean (a.isTruthy || b.isTruthy))
  | xor => .ok (.boolean (a.isTruthy != b.isTruthy))
  | pair => .ok (.string (a.text palette ++ "=" ++ b.text palette) false)
  | _ =>
    match a with
    | .number n => (Value.applyNumber op n b).mapError .fault
    | .colour c => (Value.applyColour op c b).mapError .fault
    | .string s isQuoted => Value.applyString palette op s isQuoted b
    | .boolean x => (Value.applyBoolean op x b).mapError .fault

end IndentedSass.Script
