import IndentedSass.Script.Operator
import IndentedSass.Script.Split

/-!
# Tokens

An expression is cut into tokens from left to right. What a minus sign or a word means depends on
whether an operand is expected and on whether there was a gap before it, so the reader carries both
along. The arguments of a function stay texts; they are read when the function is called.
-/

namespace IndentedSass.Script
open Ascii

/-- A piece of an expression. -/
inductive Token where
  | literal (v : Value)
  | variable (name : Text)
  | function (name : Text) (args : List Text)
  | operator (op : Operator)
  | lparen
  | rparen

namespace Token

/-- Whether an operand is expected after a token. -/
def expectsOperand : Token → Bool
  | operator _ | .lparen => true
  | _ => false

/-! ## The extent of a token

Each of these functions counts the bytes that a token takes from the start of a text. -/

/-- A gap between tokens. -/
def isGap (c : UInt8) : Bool := c == space || c == tab || c == newline || c == carriageReturn

/-- The bytes of a word with dashes inside it; a dash needs a word byte after it. -/
def dashedLength : Text → Nat
  | [] => 0
  | c :: s =>
    if isWord c then dashedLength s + 1
    else if c == minus && (s.head?.map isWord).getD false then dashedLength s + 1
    else 0

/-- The name of a variable: words joined by single dashes. -/
def nameLength (s : Text) : Nat :=
  if (s.head?.map isWord).getD false then dashedLength s else 0

/-- The first byte of an identifier, after a dash. -/
def isIdentStart (c : UInt8) : Bool := c == underscore || isLetter c

/-- A further byte of an identifier. -/
def isIdent (c : UInt8) : Bool := isWord c || c == minus || c == dot

/-- An identifier that starts without a dash. -/
def plainIdentLength : Text → Nat
  | [] => 0
  | c :: s => if isIdentStart c then (s.takeWhile isIdent).length + 1 else 0

/-- An identifier; one dash may precede it. -/
def identLength : Text → Nat
  | minus :: s => if plainIdentLength s = 0 then 0 else plainIdentLength s + 1
  | s => plainIdentLength s

/-- The fraction of a number: a point and at least one digit. -/
def fractionLength : Text → Nat
  | dot :: d :: s => if isDigit d then (s.takeWhile isDigit).length + 2 else 0
  | _ => 0

/-- A number without sign: digits, a fraction and a unit. -/
def numberLength (s : Text) : Nat :=
  let whole := (s.takeWhile isDigit).length
  let digits := whole + fractionLength (s.drop whole)
  if digits = 0 then 0 else digits + ((s.drop digits).takeWhile Number.isUnit).length

/-- Whether a number without sign starts here. -/
def startsNumber : Text → Bool
  | dot :: d :: _ => isDigit d
  | c :: _ => isDigit c
  | [] => false

/-- The fault of a quoted string without end. -/
def unterminated (s : Text) : Fault := .of .badLiteral ("unterminated string " ++ s)

/-- The bytes up to and including the parenthesis that closes the one before this text, `depth`
further ones being open; `skip` bytes belong to a quoted string. `whole` is the text from the first
parenthesis on. -/
def closingParen (whole : Text) : (depth skip : Nat) → Text → Except Fault Nat
  | _, _, [] => .error (.of .unmatchedParen ("unmatched ( in " ++ whole))
  | depth, skip + 1, _ :: s => (closingParen whole depth skip s).map (· + 1)
  | depth, 0, c :: s =>
    if isQuote c then
      match closingQuote? c s with
      | none => .error (unterminated (c :: s))
      | some skip => (closingParen whole depth skip s).map (· + 1)
    else if c == Ascii.lparen then (closingParen whole (depth + 1) 0 s).map (· + 1)
    else if c == Ascii.rparen then
      match depth with
      | 0 => .ok 1
      | depth + 1 => (closingParen whole depth 0 s).map (· + 1)
    else (closingParen whole depth 0 s).map (· + 1)

/-! ## Reading one token -/

/-- A token, or nothing where a sign has no meaning, and the number of bytes it takes. -/
structure Lexeme where
  token : Option Token
  size : Nat

/-- A number literal of `n` bytes. -/
def numberLexeme (s : Text) (n : Nat) : Except Fault Lexeme := do
  let v ← Number.ofText (s.take n)
  return ⟨some (literal (.number v)), n⟩

/-- A colour literal that starts with a hash sign. -/
def colourLexeme (s : Text) : Except Fault Lexeme :=
  let n := ((s.drop 1).takeWhile isWord).length + 1
  match Colour.ofText? (s.take n) with
  | some c => .ok ⟨some (literal (.colour c)), n⟩
  | none => .error (.of .badLiteral ("invalid colour " ++ Text.quoted (s.take n)))

/-- A quoted string. -/
def stringLexeme (s : Text) : Except Fault Lexeme :=
  match quotedLength? s with
  | some n => .ok ⟨some (literal (.ofQuoted (s.take n))), n⟩
  | none => .error (unterminated s)

/-- A variable, or the word that marks a declaration as important. -/
def variableLexeme (sigil : UInt8) (s : Text) : Lexeme :=
  let n := nameLength s
  let name := s.take n
  if sigil == bang && name == ("important" : Text) then
    ⟨some (literal (.string "!important" false)), n + 1⟩
  else ⟨some (.variable name), n + 1⟩

/-- The operators that are written as words. -/
def wordOperator? (word : Text) : Option Operator :=
  let word := word.lower
  if word = ("and" : Text) then some (.binary .and)
  else if word = ("or" : Text) then some (.binary .or)
  else if word = ("xor" : Text) then some (.binary .xor)
  else if word = ("not" : Text) then some (.unary .not)
  else none

/-- The value of a word by itself: a truth value, a colour or a string. -/
def wordValue (word : Text) : Value :=
  if word.lower = ("true" : Text) then .boolean true
  else if word.lower = ("false" : Text) then .boolean false
  else
    match Colour.ofText? word with
    | some c => .colour c
    | none => .string word false

/-- The arguments between the parentheses of a function. -/
def arguments (inner : Text) : List Text :=
  if inner.isBlankText then [] else splitTopLevel comma inner

/-- An operator word, a function or a plain word of `n` bytes. -/
def wordLexeme (s : Text) (n : Nat) : Except Fault Lexeme :=
  let word := s.take n
  match wordOperator? word, s.drop n with
  | some op, _ => .ok ⟨some (operator op), n⟩
  | none, Ascii.lparen :: rest => do
    let size ← closingParen (Ascii.lparen :: rest) 0 0 rest
    return ⟨some (function word (arguments (rest.take (size - 1)))), n + size + 1⟩
  | none, _ => .ok ⟨some (literal (wordValue word)), n⟩

/-- An operator sign and the number of its bytes; longer signs come first. -/
def sign? : Text → Option (Operator × Nat)
  | less :: less :: _ => some (.binary .shiftLeft, 2)
  | greater :: greater :: _ => some (.binary .shiftRight, 2)
  | less :: equal :: _ => some (.binary .atMost, 2)
  | greater :: equal :: _ => some (.binary .atLeast, 2)
  | equal :: equal :: _ => some (.binary .equal, 2)
  | bang :: equal :: _ => some (.binary .unequal, 2)
  | asterisk :: _ => some (.binary .mul, 1)
  | slash :: _ => some (.binary .div, 1)
  | percent :: _ => some (.binary .mod, 1)
  | plus :: _ => some (.binary .add, 1)
  | minus :: _ => some (.binary .sub, 1)
  | less :: _ => some (.binary .less, 1)
  | greater :: _ => some (.binary .greater, 1)
  | ampersand :: _ => some (.binary .bitAnd, 1)
  | bar :: _ => some (.binary .bitOr, 1)
  | caret :: _ => some (.binary .bitXor, 1)
  | tilde :: _ => some (.unary .invert, 1)
  | equal :: _ => some (.binary .pair, 1)
  | bang :: _ => some (.unary .not, 1)
  | _ => none

/-- An operator sign. Where an operand is expected a minus negates and a plus means nothing. -/
def signLexeme (expectOperand : Bool) (s : Text) : Except Fault Lexeme :=
  match sign? s with
  | none => .error (.of .badLiteral ("unable to tokenize " ++ s.quoted))
  | some (.binary .sub, n) =>
    .ok ⟨some (operator (if expectOperand then .unary .negate else .binary .sub)), n⟩
  | some (.binary .add, n) =>
    .ok ⟨if expectOperand then none else some (operator (.binary .add)), n⟩
  | some (op, n) => .ok ⟨some (operator op), n⟩

/-- The token at the start of `c :: s`. `free` says that a dash may start an operand here: one is
expected, or there was a gap. -/
def lexeme (expectOperand free : Bool) (c : UInt8) (s : Text) : Except Fault Lexeme :=
  if startsNumber (c :: s) then numberLexeme (c :: s) (numberLength (c :: s))
  else if c == minus && startsNumber s && free then numberLexeme (c :: s) (numberLength s + 1)
  else if c == hashSign then colourLexeme (c :: s)
  else if isQuote c then stringLexeme (c :: s)
  else if (c == dollar || c == bang) && (s.head?.map isWord).getD false then
    .ok (variableLexeme c s)
  else if 0 < identLength (c :: s) && (c != minus || free) then
    wordLexeme (c :: s) (identLength (c :: s))
  else if c == Ascii.lparen then .ok ⟨some .lparen, 1⟩
  else if c == Ascii.rparen then .ok ⟨some .rparen, 1⟩
  else signLexeme expectOperand (c :: s)

/-! ## Reading all tokens -/

/-- The tokens of the rest of an expression; `gap` says that there was a gap before, and `skip`
bytes belong to the token before. -/
def scan : (expectOperand gap : Bool) → (skip : Nat) → Text → Except Fault (List Token)
  | _, _, _, [] => .ok []
  | expectOperand, gap, skip + 1, _ :: s => scan expectOperand gap skip s
  | expectOperand, gap, 0, c :: s =>
    if isGap c then scan expectOperand true 0 s
    else
      match lexeme expectOperand (expectOperand || gap) c s with
      | .error fault => .error fault
      | .ok ⟨none, size⟩ => scan expectOperand false (size - 1) s
      | .ok ⟨some t, size⟩ => (scan t.expectsOperand false (size - 1) s).map (t :: ·)

/-- The tokens of an expression. -/
def ofText (s : Text) : Except Fault (List Token) := scan true false 0 s

end Token

end IndentedSass.Script
