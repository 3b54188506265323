import IndentedSass.Json

/-!
# Reading JSON

Reads one value with blanks around it. A lone half of a surrogate pair and bytes that are no
characters become the replacement character.
-/

namespace IndentedSass.Json
open Ascii

/-- A blank of JSON. -/
def isGap (c : UInt8) : Bool := c == space || c == tab || c == newline || c == carriageReturn

/-- A text without the blanks at its start. -/
def skipGaps (s : Text) : Text := s.dropWhile isGap

/-- The number that four hexadecimal digits give. -/
def unit? (s : Text) : Option Nat :=
  match s with
  | a :: b :: c :: d :: _ => do
    return ((← hexValue? a) * 16 + (← hexValue? b)) * 256 + (← hexValue? c) * 16 + (← hexValue? d)
  | _ => none

/-- The character at an escape with four digits, and how many bytes it takes behind the letter. -/
def escapedChar? (s : Text) : Option (Text × Nat) := do
  let high ← unit? s
  let lone : Text × Nat := (Text.ofChar (Char.ofNat 0xfffd), 4)
  if 0xd800 ≤ high && high < 0xdc00 then
    match Text.after? "\\u" (s.drop 4) with
    | none => return lone
    | some rest =>
      match unit? rest with
      | none => return lone
      | some low =>
        if 0xdc00 ≤ low && low < 0xe000 then
          let point := 0x10000 + (high - 0xd800) * 0x400 + (low - 0xdc00)
          return (Text.ofChar (Char.ofNat point), 10)
        else return lone
  else if 0xdc00 ≤ high && high < 0xe000 then return lone
  else return (Text.ofChar (Char.ofNat high), 4)

/-- What the letter of a short escape stands for. -/
def shortEscapes : List (UInt8 × UInt8) :=
  [(0x22, 0x22), (0x5c, 0x5c), (0x2f, 0x2f), (0x62, 8), (0x66, 12), (0x6e, 10), (0x72, 13),
   (0x74, 9)]

/-- The rest of a string up to its closing quote, with `skip` bytes of an escape still to pass, and
what follows it. -/
def stringFrom : (skip : Nat) → Text → Option (Text × Text)
  | _, [] => none
  | skip + 1, _ :: s => stringFrom skip s
  | 0, c :: s =>
    if c == quote then some ([], s)
    else if c < 0x20 then none
    else if c == backslash then
      match s with
      | [] => none
      | letter :: more =>
        match shortEscapes.lookup letter with
        | some byte => (stringFrom 1 s).map fun (text, rest) => (byte :: text, rest)
        | none =>
          if letter == 0x75 then
            match escapedChar? more with
            | none => none
            | some (char, width) =>
              (stringFrom (1 + width) s).map fun (text, rest) => (char ++ text, rest)
          else none
    else (stringFrom 0 s).map fun (text, rest) => (c :: text, rest)

/-- A text with the replacement character for each byte that is no character. -/
def repaired (s : Text) : Text := s.glyphs.flatMap fun
  | .char c => Text.ofChar c
  | .stray _ => Text.ofChar (Char.ofNat 0xfffd)

/-- A string behind its opening quote. -/
def string? (s : Text) : Option (Text × Text) :=
  (stringFrom 0 s).map fun (text, rest) => (repaired text, rest)

/-- The digits at the start of a text; there has to be one. -/
def digits? (s : Text) : Option (Text × Text) :=
  match s.takeWhile isDigit with
  | [] => none
  | digits => some (digits, s.drop digits.length)

/-- A number at the start of a text. -/
def number? (s : Text) : Option (Text × Text) := do
  let (sign, s) : Text × Text := match s with
    | minus :: s => ([minus], s)
    | s => ([], s)
  let (whole, s) ← match s with
    | zero :: s => some (([zero] : Text), s)
    | s => digits? s
  let (places, s) ← match s with
    | dot :: s => (digits? s).map fun (digits, rest) => (dot :: digits, rest)
    | s => some ([], s)
  let (exponent, s) ← match s with
    | letter :: more =>
      if toLower letter == 0x65 then
        let (mark, more) : Text × Text := match more with
          | plus :: more => ([plus], more)
          | minus :: more => ([minus], more)
          | more => ([], more)
        (digits? more).map fun (digits, rest) => (letter :: mark ++ digits, rest)
      else some ([], s)
    | [] => some ([], s)
  return (sign ++ whole ++ places ++ exponent, s)

mutual

/-- A value at the start of a text, and what follows it. -/
def value? (fuel : Nat) (s : Text) : Option (Json × Text) :=
  match fuel with
  | 0 => none
  | fuel + 1 =>
    match skipGaps s with
    | [] => none
    | c :: rest =>
      if c == quote then (string? rest).map fun (text, rest) => (.string text, rest)
      else if c == lbracket then
        match skipGaps rest with
        | rbracket :: rest => some (.array [], rest)
        | _ => (items? fuel rest).map fun (items, rest) => (.array items, rest)
      else if c == lbrace then
        match skipGaps rest with
        | rbrace :: rest => some (.object [], rest)
        | _ => (fields? fuel rest).map fun (fields, rest) => (.object fields, rest)
      else
        match Text.after? "null" (c :: rest), Text.after? "true" (c :: rest),
            Text.after? "false" (c :: rest) with
        | some rest, _, _ => some (.null, rest)
        | none, some rest, _ => some (.bool true, rest)
        | none, none, some rest => some (.bool false, rest)
        | none, none, none => (number? (c :: rest)).map fun (digits, rest) => (.number digits, rest)

/-- The items of an array up to its closing bracket. -/
def items? (fuel : Nat) (s : Text) : Option (List Json × Text) :=
  match fuel with
  | 0 => none
  | fuel + 1 => do
    let (item, rest) ← value? fuel s
    match skipGaps rest with
    | comma :: rest => do
      let (items, rest) ← items? fuel rest
      return (item :: items, rest)
    | rbracket :: rest => return ([item], rest)
    | _ => none

/-- The fields of an object up to its closing brace. -/
def fields? (fuel : Nat) (s : Text) : Option (List (Text × Json) × Text) :=
  match fuel with
  | 0 => none
  | fuel + 1 =>
    match skipGaps s with
    | quote :: rest => do
      let (name, rest) ← string? rest
      match skipGaps rest with
      | colon :: rest => do
        let (value, rest) ← value? fuel rest
        match skipGaps rest with
        | comma :: rest => do
          let (fields, rest) ← fields? fuel rest
          return ((name, value) :: fields, rest)
        | rbrace :: rest => return ([(name, value)], rest)
        | _ => none
      | _ => none
    | _ => none

end

/-- The value that a text writes down. -/
def read? (s : Text) : Option Json := do
  let (value, rest) ← value? (s.length + 1) s
  if (skipGaps rest).isEmpty then return value else none

end IndentedSass.Json
