import IndentedSass.Text

/-!
# Splitting outside quotes and parentheses

Lists of selectors, arguments and values are split at their separators, except where these stand
inside a quoted string or between parentheses.
-/

namespace IndentedSass.Script
open Ascii

/-- The number of bytes up to and including the quote `q` that closes a string; a backslash keeps
the byte after it from closing. -/
def closingQuote? (q : UInt8) : Text → Option Nat
  | [] => none
  | [c] => if c != backslash && c == q then some 1 else none
  | c :: d :: s =>
    if c == backslash then (closingQuote? q s).map (· + 2)
    else if c == q then some 1
    else (closingQuote? q (d :: s)).map (· + 1)

/-- The length of the quoted string at the start of a text. -/
def quotedLength? : Text → Option Nat
  | [] => none
  | q :: s => (closingQuote? q s).map (· + 1)

/-- What a scan for separators knows: the bytes of the piece read so far in reverse, the
parenthesis depth, and the bytes of a quoted string still to pass. -/
structure SplitState where
  piece : Text
  depth : Int
  skip : Nat

/-- Reads on from a state; the pieces come out untrimmed. -/
def splitFrom (sep : UInt8) : SplitState → Text → List Text
  | st, [] => [st.piece.reverse]
  | ⟨piece, depth, skip + 1⟩, c :: s => splitFrom sep ⟨c :: piece, depth, skip⟩ s
  | ⟨piece, depth, 0⟩, c :: s =>
    if isQuote c then
      splitFrom sep ⟨c :: piece, depth, (closingQuote? c s).getD 0⟩ s
    else if c == lparen then splitFrom sep ⟨c :: piece, depth + 1, 0⟩ s
    else if c == rparen then splitFrom sep ⟨c :: piece, depth - 1, 0⟩ s
    else if c == sep && depth == 0 then piece.reverse :: splitFrom sep ⟨[], depth, 0⟩ s
    else splitFrom sep ⟨c :: piece, depth, 0⟩ s

/-- The pieces of a text between separators outside quotes and parentheses, each trimmed. A quote
without a partner is an ordinary byte. -/
def splitTopLevel (sep : UInt8) (s : Text) : List Text :=
  (splitFrom sep ⟨[], 0, 0⟩ s).map Text.trim

end IndentedSass.Script
