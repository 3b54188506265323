import IndentedSass.Text.Utf8
import IndentedSass.Yaml

/-!
# Scalars in YAML texts

The three ways to write a scalar. A line break inside a scalar is folded into a space, and further
ones are kept.
-/

namespace IndentedSass.Yaml
open Ascii

/-- A blank inside a line. -/
def isGap (c : UInt8) : Bool := c == space || c == tab

/-- Whether a text starts with a blank or a line break, or is at its end. -/
def atGap : Text → Bool
  | [] => true
  | c :: _ => isGap c || c == newline

/-- The bytes that structure flow collections. -/
def isFlowMark (c : UInt8) : Bool :=
  c == comma || c == lbracket || c == rbracket || c == lbrace || c == rbrace

/-- Whether a line starts with a mark between documents. -/
def atDocumentMark (s : Text) : Bool :=
  let mark : Text := s.take 3
  (mark = ("---" : Text) || mark = ("..." : Text)) && atGap (s.drop 3)

/-- What stands for `breaks` line breaks inside a scalar. -/
def fold (breaks : Nat) : Text :=
  if breaks = 1 then [space] else List.replicate (breaks - 1) newline

/-- The line breaks and blanks at the start of a text: how many breaks there are, the blanks behind
the last one, and the rest. -/
def breaksOf : (breaks column : Nat) → Text → Nat × Nat × Text
  | breaks, column, [] => (breaks, column, [])
  | breaks, column, c :: s =>
    if c == newline then breaksOf (breaks + 1) 0 s
    else if isGap c then breaksOf breaks (column + 1) s
    else (breaks, column, c :: s)

/-! ## Plain scalars -/

/-- The part of a plain scalar on one line, without the blanks behind it, and the rest. `gaps` are
the blanks passed since the last byte that counts. -/
def plainLine (inFlow : Bool) : (gaps : Text) → Text → Text × Text
  | _, [] => ([], [])
  | gaps, c :: s =>
    if c == newline then ([], gaps ++ c :: s)
    else if isGap c then plainLine inFlow (gaps ++ [c]) s
    else if (c == hashSign && !gaps.isEmpty) || (c == colon && atGap s)
        || (inFlow && (isFlowMark c || c == question)) then
      ([], gaps ++ c :: s)
    else
      let (text, rest) := plainLine inFlow [] s
      (gaps ++ c :: text, rest)

/-- The further lines of a plain scalar. Outside flow collections they are indented by more than
`indent`. -/
def plainMore (inFlow : Bool) (indent : Int) : (fuel : Nat) → Text → Text × Text
  | 0, s => ([], s)
  | fuel + 1, s =>
    let (breaks, column, next) := breaksOf 0 0 s
    if breaks = 0 || next.head? == some hashSign || (!inFlow && (column : Int) ≤ indent)
        || (column = 0 && atDocumentMark next) then ([], s)
    else
      match plainLine inFlow [] next with
      | ([], _) => ([], s)
      | (text, rest) =>
        let (more, rest) := plainMore inFlow indent fuel rest
        (fold breaks ++ text ++ more, rest)

/-- A plain scalar and the rest. -/
def plain (inFlow : Bool) (indent : Int) (s : Text) : Text × Text :=
  let (text, rest) := plainLine inFlow [] s
  let (more, rest) := plainMore inFlow indent rest.length rest
  (text ++ more, rest)

/-- Whether a plain scalar can start here. -/
def startsPlain (inFlow : Bool) : Text → Bool
  | [] => false
  | c :: s =>
    if c == minus then !atGap s
    else if c == question || c == colon then !inFlow && !atGap s
    else !(isGap c || c == newline || isFlowMark c || c == hashSign || c == ampersand
      || c == asterisk || c == bang || c == bar || c == greater || c == apostrophe || c == quote
      || c == percent || c == atSign || c == 0x60)

/-! ## Quoted scalars -/

/-- Why a quoted scalar cannot be read. -/
inductive QuoteFault where
  | unclosed
  | documentMark
  | badEscape
  | badDigits
  | badCharacter
  deriving DecidableEq, Repr

/-- What the letter of an escape stands for. -/
def escapes : List (UInt8 × Text) :=
  [(0x30, [0]), (0x61, [7]), (0x62, [8]), (0x74, [9]), (0x09, [9]), (0x6e, [10]), (0x76, [11]),
   (0x66, [12]), (0x72, [13]), (0x65, [0x1b]), (0x20, [0x20]), (0x22, [0x22]), (0x2f, [0x2f]),
   (0x27, [0x27]), (0x5c, [0x5c]), (0x4e, [0xc2, 0x85]), (0x5f, [0xc2, 0xa0]),
   (0x4c, [0xe2, 0x80, 0xa8]), (0x50, [0xe2, 0x80, 0xa9])]

/-- How many hexadecimal digits the letter of an escape announces. -/
def escapeDigits : List (UInt8 × Nat) := [(0x78, 2), (0x75, 4), (0x55, 8)]

/-- The character with the number that the first `count` hexadecimal digits give. -/
def escaped (count : Nat) (s : Text) : Except QuoteFault Text :=
  let digits : Text := s.take count
  match digits.mapM hexValue? with
  | some values =>
    if values.length < count then .error .badDigits
    else
      let n := values.foldl (fun n d => 16 * n + d) 0
      if n.isValidChar then .ok (Text.ofChar (Char.ofNat n)) else .error .badCharacter
  | none => .error .badDigits

/-- Reads a quoted scalar up to its closing quote. `skip` bytes belong to what was read last;
`gaps` are blanks and `breaks` line breaks whose meaning depends on what follows. -/
def quotedFrom (mark : UInt8) : (skip : Nat) → (gaps : Text) → (breaks : Nat) → Text →
    Except QuoteFault (Text × Text)
  | _, _, _, [] => .error .unclosed
  | skip + 1, gaps, breaks, _ :: s => quotedFrom mark skip gaps breaks s
  | 0, gaps, breaks, c :: s =>
    let held : Text := if breaks = 0 then gaps else fold breaks
    let emit (text : Text) (r : Except QuoteFault (Text × Text)) :
        Except QuoteFault (Text × Text) :=
      r.map fun (more, rest) => (held ++ text ++ more, rest)
    if c == newline then
      if atDocumentMark s then .error .documentMark
      else quotedFrom mark 0 [] (breaks + 1) s
    else if isGap c then
      if breaks = 0 then quotedFrom mark 0 (gaps ++ [c]) 0 s else quotedFrom mark 0 [] breaks s
    else if c == mark then
      if mark == apostrophe && s.head? == some apostrophe then
        emit [apostrophe] (quotedFrom mark 1 [] 0 s)
      else .ok (held, s)
    else if mark == quote && c == backslash then
      match s with
      | [] => .error .unclosed
      | letter :: more =>
        if letter == newline then
          let blanks := (more.takeWhile fun c => isGap c).length
          emit [] (quotedFrom mark (1 + blanks) [] 0 s)
        else
          match escapes.lookup letter, escapeDigits.lookup letter with
          | some text, _ => emit text (quotedFrom mark 1 [] 0 s)
          | none, some count =>
            match escaped count more with
            | .ok text => emit text (quotedFrom mark (1 + count) [] 0 s)
            | .error fault => .error fault
          | none, none => .error .badEscape
    else emit [c] (quotedFrom mark 0 [] 0 s)

/-- The text of a quoted scalar behind its opening quote, and the rest. -/
def quoted (mark : UInt8) (s : Text) : Except QuoteFault (Text × Text) := quotedFrom mark 0 [] 0 s

end IndentedSass.Yaml
