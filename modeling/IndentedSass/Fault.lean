import IndentedSass.Text

/-!
# Faults

What can go wrong while a sheet is read, expanded, imported or served. A fault of the language has
a `Kind`, a message, the `Position` of the line it was raised at and possibly a cause; other faults
are plain messages, rejected input, missing things, and faults under a tag or merged into one.

The chain of a fault leads through tags and causes. Questions such as "which kind is this" are
answered by the first language fault of the chain.
-/

namespace IndentedSass

/-- The line of a source that a fault or a statement belongs to. -/
structure Position where
  file : Text
  line : Int
  indent : Int
  deriving DecidableEq, Repr

namespace Position
open Ascii

/-- No position at all. -/
def none : Position := ⟨[], 0, 0⟩

/-- A position that names neither a file nor a line counts as missing. -/
def isNone (p : Position) : Bool := p.line == 0 && p.file.isEmpty

/-- File, line and indentation as messages show them. -/
def text (p : Position) : Text :=
  let file : Text := if p.file.isEmpty then "<input>" else p.file
  file ++ ":" ++ Text.ofInt p.line ++ " (indent " ++ Text.ofInt p.indent ++ ")"

end Position

/-- The coarse classes of language faults. -/
inductive FaultClass where
  | malformed
  | semantic
  | importing
  | other (code : Int)
  deriving DecidableEq, Repr

namespace FaultClass

/-- The class with a given number. -/
def ofCode (code : Int) : FaultClass :=
  if code = 0 then .malformed else if code = 1 then .semantic
  else if code = 2 then .importing else .other code

/-- The name of a class as messages show it. -/
def name : FaultClass → Text
  | .malformed => "SyntaxError"
  | .semantic => "SemanticError"
  | .importing => "ImportError"
  | .other code => "Class(" ++ Text.ofInt code ++ ")"

end FaultClass

/-- The kinds of language faults. -/
inductive Kind where
  | badIndent
  | badSelector
  | badLiteral
  | unmatchedParen
  | badPropertySyntax
  | undefinedVariable
  | undefinedMixin
  | missingArgument
  | arityMismatch
  | typeMismatch
  | unitMismatch
  | noParentSelector
  | importNotFound
  | other (code : Int)
  deriving DecidableEq, Repr

namespace Kind

/-- The named kinds, in the order of their numbers. -/
def named : List Kind :=
  [badIndent, badSelector, badLiteral, unmatchedParen, badPropertySyntax, undefinedVariable,
   undefinedMixin, missingArgument, arityMismatch, typeMismatch, unitMismatch, noParentSelector,
   importNotFound]

/-- The kind with a given number. -/
def ofCode (code : Int) : Kind :=
  if code < 0 then other code else (named[code.toNat]?).getD (other code)

/-- The name of a kind as messages show it. -/
def name : Kind → Text
  | badIndent => "BadIndent"
  | badSelector => "BadSelector"
  | badLiteral => "BadLiteral"
  | unmatchedParen => "UnmatchedParen"
  | badPropertySyntax => "BadPropertySyntax"
  | undefinedVariable => "UndefinedVariable"
  | undefinedMixin => "UndefinedMixin"
  | missingArgument => "MissingArgument"
  | arityMismatch => "ArityMismatch"
  | typeMismatch => "TypeMismatch"
  | unitMismatch => "UnitMismatch"
  | noParentSelector => "NoParentSelector"
  | importNotFound => "NotFound"
  | other code => "Kind(" ++ Text.ofInt code ++ ")"

/-- The class of a kind; a kind without a name takes the class at its end of the numbering. -/
def toClass : Kind → FaultClass
  | badIndent | badSelector | badLiteral | unmatchedParen | badPropertySyntax => .malformed
  | undefinedVariable | undefinedMixin | missingArgument | arityMismatch | typeMismatch
  | unitMismatch | noParentSelector => .semantic
  | importNotFound => .importing
  | other code => if code < 0 then .malformed else .importing

end Kind

/-- A failure and what led to it. -/
inductive Fault where
  /-- A message without further meaning. -/
  | plain (message : Text)
  /-- Input that was rejected. -/
  | invalid (message : Text)
  /-- Something that does not exist. -/
  | notFound
  /-- A fault with a note on where it came up. -/
  | tagged (tag : Text) (cause : Fault)
  /-- A fault of the language. -/
  | language (kind : Kind) (message : Text) (pos : Position) (cause : Option Fault)
  /-- Several independent faults. -/
  | merged (faults : List Fault)
  deriving Repr

namespace Fault

/-- A language fault without position and cause. -/
def of (kind : Kind) (message : Text) : Fault := .language kind message .none none

/-! ## Message -/

mutual

/-- The full message, tags and causes included. -/
def text : Fault → Text
  | .plain message => message
  | .invalid message => message
  | .notFound => "not found"
  | .tagged tag cause => tag ++ ": " ++ cause.text
  | .language kind message pos cause =>
    let place : Text := if pos.isNone then [] else " at " ++ pos.text
    kind.toClass.name ++ "/" ++ kind.name ++ place ++ ": " ++ message ++ causeText cause
  | .merged [fault] => fault.text
  | .merged faults => "merged: " ++ Text.join " + " (texts faults)

/-- The part of a message that a cause contributes. -/
def causeText : Option Fault → Text
  | none => []
  | some fault => ": " ++ fault.text

/-- The messages of several faults. -/
def texts : List Fault → List Text
  | [] => []
  | fault :: rest => fault.text :: texts rest

end

/-! ## The chain of a fault -/

/-- The fault itself, then what it wraps, and so on. -/
def chain : Fault → List Fault
  | .tagged tag cause => .tagged tag cause :: cause.chain
  | .language kind message pos (some cause) =>
    .language kind message pos (some cause) :: cause.chain
  | fault => [fault]

/-- The kind of the first language fault of the chain. -/
def kind? : Fault → Option Kind
  | .tagged _ cause => cause.kind?
  | .language kind _ _ _ => some kind
  | _ => none

/-- The position of the first language fault of the chain. -/
def pos? : Fault → Option Position
  | .tagged _ cause => cause.pos?
  | .language _ _ pos _ => some pos
  | _ => none

/-- The message of the first language fault of the chain, without position and cause. -/
def message? : Fault → Option Text
  | .tagged _ cause => cause.message?
  | .language _ message _ _ => some message
  | _ => none

/-- Whether the first language fault of the chain is of kind `k`. -/
def is (fault : Fault) (k : Kind) : Bool := fault.kind? == some k

/-- Whether the first language fault of the chain is of class `c`. -/
def isClass (fault : Fault) (c : FaultClass) : Bool := fault.kind?.map Kind.toClass == some c

/-- Gives the first language fault of the chain a position, unless it has one. -/
def locate (pos : Position) : Fault → Fault
  | .tagged tag cause => .tagged tag (cause.locate pos)
  | .language kind message old cause =>
    .language kind message (if old.isNone then pos else old) cause
  | fault => fault

/-- What remains of a fault without its tags. -/
def untagged : Fault → Fault
  | .tagged _ cause => cause.untagged
  | fault => fault

/-- The message for an outside reader: the full one for faults that concern them, `fallback` for
all others. -/
def publicText (fallback : Text) (fault : Fault) : Text :=
  match fault.untagged with
  | .invalid _ | .notFound | .language .. => fault.text
  | _ => fallback

/-- Whether the fault is rejected input, tags aside. -/
def isInvalid (fault : Fault) : Bool :=
  match fault.untagged with
  | .invalid _ => true
  | _ => false

/-- Whether something missing is at the end of the chain. -/
def isNotFound : Fault → Bool
  | .notFound => true
  | .tagged _ cause => cause.isNotFound
  | .language _ _ _ (some cause) => cause.isNotFound
  | _ => false

/-- The faults as one: none at all, the only one, or all of them merged. -/
def ofList : List Fault → Option Fault
  | [] => none
  | [fault] => some fault
  | faults => some (.merged faults)

end Fault

end IndentedSass
