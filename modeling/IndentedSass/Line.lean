import IndentedSass.Fault

/-!
# Lines

A source is read line by line. The first indented line fixes the unit of indentation, a tab or a
run of spaces, and every other line has to be indented by whole units. Blank lines have no
indentation, and white space at the end of a line does not count.
-/

namespace IndentedSass

/-- One line of a source with its indentation resolved to a level. -/
structure Line where
  text : Text
  indent : Nat
  number : Int
  file : Text
  blank : Bool
  deriving DecidableEq, Repr

namespace Line
open Ascii

/-- Where the line stands. -/
def position (l : Line) : Position := ⟨l.file, l.number, l.indent⟩

/-- A byte of indentation. -/
def isIndent (c : UInt8) : Bool := c == space || c == tab

/-- A byte that does not count at the end of a line. -/
def isTrailing (c : UInt8) : Bool := c == space || c == tab || c == carriageReturn

/-- The unit of indentation: `width` times the byte `char`. -/
structure Indentation where
  char : UInt8
  width : Nat
  deriving DecidableEq, Repr

namespace Indentation

/-- Two spaces, for a source without indented lines. -/
def standard : Indentation := ⟨space, 2⟩

/-- The unit that an indented line starts with, if it starts with one byte only. -/
def ofLine? : Text → Option Indentation
  | [] => some standard
  | c :: s =>
    if ((s.dropWhile (· == c)).head?.map isIndent).getD false then none
    else some ⟨c, if c == tab then 1 else (s.takeWhile (· == c)).length + 1⟩

/-- Whether a raw line shows the unit of indentation. -/
def shows (s : Text) : Bool := !s.isBlankText && (s.head?.map isIndent).getD false

/-- The unit of a source, read off its first indented line; `number` is the number of the first
of the lines. -/
def detect (file : Text) : (number : Int) → List Text → Except Fault Indentation
  | _, [] => .ok standard
  | number, s :: rest =>
    if shows s then
      match ofLine? s with
      | some unit => .ok unit
      | none =>
        .error ((Fault.of .badIndent "mixed indentation is not allowed").locate ⟨file, number, 0⟩)
    else detect file (number + 1) rest

/-- The level of a line that starts with `lead` bytes of indentation. -/
def level (unit : Indentation) (lead : Text) : Except Fault Nat :=
  if !lead.all (· == unit.char) then
    .error (Fault.of .badIndent "inconsistent indentation")
  else if lead.length % unit.width ≠ 0 then
    .error (Fault.of .badIndent ("indentation of " ++ Text.ofNat lead.length ++
      " is not a multiple of " ++ Text.ofNat unit.width))
  else .ok (lead.length / unit.width)

end Indentation

/-- The record of one raw line. -/
def ofRaw (unit : Indentation) (file : Text) (number : Int) (raw : Text) : Except Fault Line :=
  let s := raw.trimEndWhile isTrailing
  let text := s.dropWhile isIndent
  if text.isEmpty then .ok ⟨[], 0, number, file, true⟩
  else
    match unit.level (s.takeWhile isIndent) with
    | .ok indent => .ok ⟨text, indent, number, file, false⟩
    | .error fault => .error (fault.locate ⟨file, number, 0⟩)

/-- The records of raw lines numbered from `number`. -/
def ofRaws (unit : Indentation) (file : Text) : (number : Int) → List Text →
    Except Fault (List Line)
  | _, [] => .ok []
  | number, s :: rest => do
    let l ← ofRaw unit file number s
    let ls ← ofRaws unit file (number + 1) rest
    return l :: ls

/-- The raw lines of a source, cut at line feeds; a carriage return before a line feed belongs to
the line end. -/
def raws (source : Text) : List Text := Text.splitOn newline (Text.replace "\r\n" "\n" source)

/-- The number of the first line; zero means one. -/
def firstNumber (first : Int) : Int := if first = 0 then 1 else first

/-- All lines of a source, numbered from `first`. -/
def ofSource (source file : Text) (first : Int) : Except Fault (List Line) := do
  let start := firstNumber first
  let unit ← Indentation.detect file start (raws source)
  ofRaws unit file start (raws source)

end Line

end IndentedSass
