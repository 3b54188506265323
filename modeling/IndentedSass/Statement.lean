import IndentedSass.Fault

/-!
# Statements

A source is a tree of statements, nested as its lines are indented. A statement keeps the text of
its expressions; they are evaluated only when the sheet is expanded.
-/

namespace IndentedSass

/-- A parameter of a mixin, with the expression that stands in for a missing argument. -/
structure Param where
  name : Text
  fallback : Option Text
  deriving DecidableEq, Repr

/-- One link of a chain of alternatives. An empty test always holds. -/
structure Branch (α : Type) where
  pos : Position
  test : Text
  body : List α
  deriving Repr

/-- A line of a source, together with the lines nested beneath it. -/
inductive Statement where
  /-- Selectors, grouped by source line, and what they apply to. -/
  | rule (pos : Position) (selectors : List (List Text)) (body : List Statement)
  /-- A declaration. A script value is an expression, any other value passes through. -/
  | property (pos : Position) (name value : Text) (script : Bool) (body : List Statement)
  /-- An assignment; an optional one keeps a value that is there already. -/
  | assign (pos : Position) (name expr : Text) (optional : Bool)
  | mixin (pos : Position) (name : Text) (params : List Param) (body : List Statement)
  | call (pos : Position) (name : Text) (args : List Text)
  | imports (pos : Position) (uri : Text)
  | forLoop (pos : Position) (var first bound : Text) (inclusive : Bool) (step : Text)
      (body : List Statement)
  /-- Alternatives, of which the first one whose test holds is taken. -/
  | choice (head : Branch Statement) (more : List (Branch Statement))
  /-- A loop; `runsFirst` puts the first round before the first test. -/
  | whileLoop (pos : Position) (test : Text) (runsFirst : Bool) (body : List Statement)
  /-- Any other line that starts with an at sign, kept as it is. -/
  | directive (pos : Position) (text : Text) (body : List Statement)
  | comment (pos : Position) (lines : List Text)

namespace Statement
open Ascii

/-- Where a statement stands. -/
def pos : Statement → Position
  | rule pos .. | property pos .. | assign pos .. | mixin pos .. | call pos .. | imports pos ..
  | forLoop pos .. | whileLoop pos .. | directive pos .. | comment pos .. => pos
  | choice head _ => head.pos

/-- Whether an import is left for the browser: its target is quoted or starts with `url(` and goes
on. -/
def isPlainImport (uri : Text) : Bool :=
  match uri with
  | c :: _ => isQuote c || (uri.length > 4 && uri.take 4 == ("url(" : Text))
  | [] => false

/-- A property without a value only lends its name to the properties beneath it. -/
def isNamespace (value : Text) : Bool := value.isEmpty

end Statement

/-- A whole source: its statements, and where it starts. -/
structure Source where
  pos : Position
  body : List Statement

end IndentedSass
