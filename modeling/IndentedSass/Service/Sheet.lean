import IndentedSass.Decimal.Integer
import IndentedSass.Json.Reader

/-!
# Served style sheets

A served style sheet knows the files it was made from and their times, so that one can tell later
whether it still holds. It travels through the shared store as JSON.
-/

namespace IndentedSass.Service
open Ascii

/-- A style sheet as it is served. -/
structure Sheet where
  css : Text
  style : Text
  files : List Text
  /-- The times of the files, in nanoseconds. -/
  modTimes : List Int
  /-- When it was compiled, as a time stamp. -/
  compiled : Text
  deriving DecidableEq, Repr

namespace Sheet

/-- A sheet with nothing in it. -/
def empty : Sheet := ⟨[], [], [], [], []⟩

/-- The sheet as JSON. -/
def toJson (s : Sheet) : Json :=
  .object [("css", .string s.css), ("style", .string s.style), ("files", .ofTexts s.files),
    ("mod_times", .array (s.modTimes.map .ofInt)), ("compiled", .string s.compiled)]

/-! ## Time stamps -/

/-- The value of `width` decimal digits at the start of a text, and the rest. -/
def digits? (width : Nat) (s : Text) : Option (Nat × Text) := do
  let n ← Text.toNat? (s.take width)
  if s.length < width then none else return (n, s.drop width)

/-- The number of days of a month. -/
def daysOf (year month : Nat) : Nat :=
  if month = 2 then
    if year % 4 = 0 && (year % 100 != 0 || year % 400 = 0) then 29 else 28
  else if [4, 6, 9, 11].contains month then 30 else 31

/-- Whether a text is a time stamp such as `2000-01-31T23:59:59.5+01:00`. -/
def isTimeStamp (s : Text) : Bool :=
  let read : Option Unit := do
    let (year, s) ← digits? 4 s
    let (month, s) ← digits? 2 (← Text.after? "-" s)
    let (day, s) ← digits? 2 (← Text.after? "-" s)
    let (hour, s) ← digits? 2 (← Text.after? "T" s)
    let (minute, s) ← digits? 2 (← Text.after? ":" s)
    let (second, s) ← digits? 2 (← Text.after? ":" s)
    let s : Text ← match s with
      | dot :: digit :: rest => if isDigit digit then some (rest.dropWhile isDigit) else none
      | s => some s
    guard (1 ≤ month && month ≤ 12 && 1 ≤ day && day ≤ daysOf year month)
    guard (hour < 24 && minute < 60 && second < 60)
    if s = ("Z" : Text) then return ()
    let (hours, s) ← match s with
      | plus :: rest | minus :: rest => digits? 2 rest
      | _ => none
    let (minutes, s) ← digits? 2 (← Text.after? ":" s)
    guard (s.isEmpty && hours < 24 && minutes < 60)
  read.isSome

/-! ## Reading -/

/-- A text in place of `old`; nothing leaves it as it is. -/
def textOf? (old : Text) : Json → Option Text
  | .null => some old
  | .string s => some s
  | _ => none

/-- An integer; nothing counts as zero. -/
def intOf? : Json → Option Int
  | .null => some 0
  | .number digits => (Decimal.readInt digits).toOption
  | _ => none

/-- A list, read item by item. -/
def listOf? {α : Type} (f : Json → Option α) : Json → Option (List α)
  | .null => some []
  | .array items => items.mapM f
  | _ => none

/-- Takes one field into a sheet; names count in any case of letters, and unknown ones are passed
over. -/
def takeField? (s : Sheet) (name : Text) (value : Json) : Option Sheet :=
  let name := name.lower
  if name = ("css" : Text) then (textOf? s.css value).map fun css => { s with css }
  else if name = ("style" : Text) then (textOf? s.style value).map fun style => { s with style }
  else if name = ("files" : Text) then
    (listOf? (textOf? []) value).map fun files => { s with files }
  else if name = ("mod_times" : Text) then
    (listOf? intOf? value).map fun modTimes => { s with modTimes }
  else if name = ("compiled" : Text) then
    match value with
    | .null => some s
    | .string compiled => if isTimeStamp compiled then some { s with compiled } else none
    | _ => none
  else some s

/-- The sheet that JSON describes. -/
def ofJson? : Json → Option Sheet
  | .null => some empty
  | .object fields => fields.foldlM (fun s (name, value) => takeField? s name value) empty
  | _ => none

/-- The sheet that a text describes. -/
def read? (text : Text) : Option Sheet := do ofJson? (← Json.read? text)

end Sheet

end IndentedSass.Service
