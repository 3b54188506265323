import IndentedSass.Decimal.Integer

/-!
# YAML documents

The nodes of a YAML document, with the lines they stand on, and what a plain scalar means: nothing,
a truth value, a number or a text.
-/

namespace IndentedSass.Yaml
open Ascii

/-- A node of a document. -/
inductive Node where
  | scalar (line : Nat) (isQuoted : Bool) (text : Text)
  | list (line : Nat) (items : List Node)
  | mapping (line : Nat) (entries : List (Node × Node))
  deriving Inhabited

namespace Node

/-- The line that a node starts on. -/
def line : Node → Nat
  | scalar line .. | list line _ | mapping line _ => line

/-- A scalar that is not written at all. -/
def missing (line : Nat) : Node := scalar line false []

/-- Whether two keys are the same: keys that are scalars are, if they have the same text. -/
def sameKey : Node → Node → Bool
  | scalar _ _ s, scalar _ _ t => s = t
  | list .., list .. | mapping .., mapping .. => true
  | _, _ => false

end Node

/-- What a scalar means. -/
inductive Scalar where
  | null
  | bool (b : Bool)
  | int (n : Int)
  | float (x : Float)
  | text (s : Text)

/-- The tag of a meaning. -/
def Scalar.tag : Scalar → Text
  | .null => "!!null"
  | .bool _ => "!!bool"
  | .int _ => "!!int"
  | .float _ => "!!float"
  | .text _ => "!!str"

/-- Whether a text is a decimal number with at least one digit, an optional point and an optional
exponent. -/
def isFloatText (s : Text) : Bool :=
  let body : Text := match s with
    | plus :: rest | minus :: rest => rest
    | _ => s
  let whole : Text := body.takeWhile isDigit
  let behind : Text := body.drop whole.length
  let (places, rest) : Text × Text := match behind with
    | dot :: more => (more.takeWhile isDigit, more.dropWhile isDigit)
    | _ => ([], behind)
  let exponentFits : Bool := match rest with
    | [] => true
    | letter :: digits =>
      let digits : Text := match digits with
        | plus :: more | minus :: more => more
        | _ => digits
      toLower letter == 0x65 && !digits.isEmpty && digits.all isDigit
  (!whole.isEmpty || !places.isEmpty) && exponentFits

/-- The numbers that are written as words. -/
def words : List (Text × Scalar) :=
  let inf : Float := 1 / 0
  [("", .null), ("~", .null), ("null", .null), ("Null", .null), ("NULL", .null),
   ("true", .bool true), ("True", .bool true), ("TRUE", .bool true),
   ("false", .bool false), ("False", .bool false), ("FALSE", .bool false),
   (".nan", .float (0 / 0)), (".NaN", .float (0 / 0)), (".NAN", .float (0 / 0)),
   (".inf", .float inf), (".Inf", .float inf), (".INF", .float inf),
   ("+.inf", .float inf), ("+.Inf", .float inf), ("+.INF", .float inf),
   ("-.inf", .float (-inf)), ("-.Inf", .float (-inf)), ("-.INF", .float (-inf))]

/-- The number that a text denotes, underscores not counted. -/
def number? (s : Text) : Option Scalar :=
  let plain : Text := s.filter (· != underscore)
  match Decimal.readMarkedInt plain, Decimal.readMarkedNat plain with
  | .ok n, _ => some (.int n)
  | .error _, .ok n => some (.int n)
  | .error _, .error _ =>
    if isFloatText plain then
      match Decimal.read plain with
      | .ok x => some (.float x)
      | .error _ => none
    else none

/-- What a plain scalar means. -/
def resolve (s : Text) : Scalar :=
  match words.lookup s with
  | some value => value
  | none =>
    match s with
    | dot :: _ =>
      match Decimal.read s with
      | .ok x => .float x
      | .error _ => .text s
    | c :: _ =>
      if isDigit c || c == plus || c == minus then (number? s).getD (.text s) else .text s
    | [] => .null

/-- What a scalar means; in quotes it is always a text. -/
def meaning (isQuoted : Bool) (s : Text) : Scalar := if isQuoted then .text s else resolve s

end IndentedSass.Yaml
