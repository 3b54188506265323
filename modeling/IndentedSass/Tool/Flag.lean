import IndentedSass.Decimal.Integer
import IndentedSass.Fault
import IndentedSass.Settings.Duration
import IndentedSass.Text.Quoted

/-!
# Flags

The flags of a command line: long ones after two dashes, short ones of one letter after a single
dash, values behind an equals sign or in the next argument. Two dashes alone end the flags. Values
are checked as they come, so the first thing that is wrong with a command line is the one that is
reported.
-/

namespace IndentedSass.Tool
open Ascii

/-- What the value of a flag is. -/
inductive FlagKind where
  | text
  | list
  | bool
  | int
  | duration
  deriving DecidableEq, Repr

/-- A flag. -/
structure Flag where
  name : Text
  short : Option UInt8
  kind : FlagKind
  deriving DecidableEq, Repr

namespace Flag

/-- Whether a flag can stand without a value. -/
def isBool (f : Flag) : Bool := f.kind = .bool

/-- A flag as messages show it. -/
def shown (f : Flag) : Text :=
  match f.short with
  | some c => [minus, c] ++ ", --" ++ f.name
  | none => "--" ++ f.name

/-- The truth value of a flag. -/
def boolOf? (s : Text) : Option Bool :=
  if ["1", "t", "T", "true", "TRUE", "True"].any fun word => Text.ofString word = s then some true
  else if ["0", "f", "F", "false", "FALSE", "False"].any fun word => Text.ofString word = s then
    some false
  else none

end Flag

/-! ## Lists -/

/-- The items of a list of values: between commas, possibly in quotes, where two quotes stand for
one. A quote elsewhere is a mistake; `column` counts the bytes. -/
def itemsFrom : (inQuotes isStart : Bool) → (skip column : Nat) → Text → Except Text (List Text)
  | inQuotes, _, _, column, [] =>
    if inQuotes then
      .error ("parse error on line 1, column " ++ Text.ofNat column
        ++ ": extraneous or missing \" in quoted-field")
    else .ok [[]]
  | inQuotes, isStart, skip + 1, column, _ :: s => itemsFrom inQuotes isStart skip (column + 1) s
  | inQuotes, isStart, 0, column, c :: s =>
    let more (c : UInt8) (r : Except Text (List Text)) : Except Text (List Text) :=
      r.map fun
        | item :: rest => (c :: item) :: rest
        | [] => [[c]]
    if inQuotes then
      if c == quote then
        match s with
        | [] => .ok [[]]
        | d :: _ =>
          if d == quote then more quote (itemsFrom true false 1 (column + 1) s)
          else if d == comma then (itemsFrom false true 1 (column + 1) s).map ([] :: ·)
          else
            .error ("parse error on line 1, column " ++ Text.ofNat column
              ++ ": extraneous or missing \" in quoted-field")
      else more c (itemsFrom true false 0 (column + 1) s)
    else if c == comma then (itemsFrom false true 0 (column + 1) s).map ([] :: ·)
    else if c == quote then
      if isStart then itemsFrom true false 0 (column + 1) s
      else
        .error ("parse error on line 1, column " ++ Text.ofNat column
          ++ ": bare \" in non-quoted field")
    else more c (itemsFrom false false 0 (column + 1) s)

/-- The items of a list of values; an empty text has none. -/
def itemsOf (s : Text) : Except Text (List Text) :=
  if s.isEmpty then .ok []
  else
    match s.dropWhile (· == newline) with
    | [] => .error "EOF"
    | s => itemsFrom false true 0 1 (s.takeWhile (· != newline))

/-! ## Parsing -/

/-- The flags that were given with their values, in order, and the other arguments. -/
structure Given where
  values : List (Text × Text)
  args : List Text

namespace Given

/-- The value that a flag was given last. -/
def last? (g : Given) (name : Text) : Option Text := g.values.reverse.lookup name

/-- The text of a flag. -/
def text (g : Given) (name fallback : Text) : Text := (g.last? name).getD fallback

/-- Whether a flag is set. -/
def bool (g : Given) (name : Text) (fallback : Bool) : Bool :=
  ((g.last? name).bind Flag.boolOf?).getD fallback

/-- The number of a flag. -/
def int (g : Given) (name : Text) (fallback : Int) : Int :=
  ((g.last? name).bind fun s => (Decimal.readMarkedInt s).toOption).getD fallback

/-- All values of a list flag, if it was given. -/
def list? (g : Given) (name : Text) : Option (List Text) :=
  match g.values.filter fun entry => entry.1 = name with
  | [] => none
  | entries => some (entries.flatMap fun entry => ((itemsOf entry.2).toOption).getD [])

end Given

/-- What is wrong with a value, if anything. -/
def valueFault? (kind : FlagKind) (s : Text) : Option Text :=
  match kind with
  | .text => none
  | .list =>
    match itemsOf s with
    | .ok _ => none
    | .error message => some message
  | .bool =>
    if (Flag.boolOf? s).isSome then none
    else some (Decimal.NumberFault.malformed.message "ParseBool" s)
  | .int =>
    match Decimal.readMarkedInt s with
    | .ok _ => none
    | .error fault => some (Decimal.intMessage s fault)
  | .duration =>
    match Settings.Duration.read s with
    | .ok _ => none
    | .error fault => some (fault.message s)

/-- Checks the value of a flag. -/
def checkValue (f : Flag) (s : Text) : Except Fault Unit :=
  match valueFault? f.kind s with
  | none => .ok ()
  | some message =>
    .error (.plain ("invalid argument " ++ s.quoted ++ " for " ++ f.shown.quoted ++ " flag: "
      ++ message))

/-- The values that one argument of short flags gives, and the flag that takes the next argument, if
there is one. -/
def shortFlags (flags : List Flag) : Text → Except Fault (List (Flag × Text) × Option Flag)
  | [] => .ok ([], none)
  | c :: rest =>
    match flags.find? fun f => f.short = some c with
    | none =>
      let letter : Text := if c == apostrophe || c == backslash then [backslash, c]
        else Text.ofChar (Char.ofNat c.toNat)
      .error (.plain ("unknown shorthand flag: '" ++ letter ++ "' in -" ++ c :: rest))
    | some f =>
      match rest with
      | equal :: v :: value => .ok ([(f, v :: value)], none)
      | _ =>
        if f.isBool then do
          let (more, open?) ← shortFlags flags rest
          return ((f, "true") :: more, open?)
        else if rest.isEmpty then .ok ([], some f)
        else .ok ([(f, rest)], none)

/-- The value that one long flag gives itself, or the flag that takes the next argument. -/
def longFlag (flags : List Flag) (s : Text) : Except Fault (List (Flag × Text) × Option Flag) :=
  let body : Text := s.drop 2
  if body.head? == some minus || body.head? == some equal then
    .error (.plain ("bad flag syntax: " ++ s))
  else
    let (name, value?) : Text × Option Text := match Text.cut? "=" body with
      | some (name, value) => (name, some value)
      | none => (body, none)
    match flags.find? (fun f => f.name = name), value? with
    | none, _ => .error (.plain ("unknown flag: --" ++ name))
    | some f, some value => .ok ([(f, value)], none)
    | some f, none => if f.isBool then .ok ([(f, "true")], none) else .ok ([], some f)

/-- Parses arguments; `before?` is a flag that takes the next argument, with the message in case
there is none. -/
def parseFrom (flags : List Flag) : (before? : Option (Flag × Text)) → List Text →
    Except Fault Given
  | none, [] => .ok ⟨[], []⟩
  | some (_, message), [] => .error (.plain message)
  | some (f, _), s :: rest => do
    checkValue f s
    let g ← parseFrom flags none rest
    return { g with values := (f.name, s) :: g.values }
  | none, s :: rest =>
    let isLong := ("--" : Text).isPrefixOf s
    if s.length < 2 || s.head? != some minus then do
      let g ← parseFrom flags none rest
      return { g with args := s :: g.args }
    else if s = ("--" : Text) then .ok ⟨[], rest⟩
    else do
      let (given, open?) ← if isLong then longFlag flags s else shortFlags flags (s.drop 1)
      given.forM fun (f, value) => checkValue f value
      let waiting := open?.map fun f =>
        let what : Text := if isLong then s
          else match f.short with
            | some c => "'" ++ ([c] ++ "' in -" ++ [c] : Text)
            | none => s
        (f, "flag needs an argument: " ++ what)
      let g ← parseFrom flags waiting rest
      return { g with values := given.map (fun (f, value) => (f.name, value)) ++ g.values }

/-- Parses arguments. -/
def parseFlags (flags : List Flag) (args : List Text) : Except Fault Given :=
  parseFrom flags none args

end IndentedSass.Tool
