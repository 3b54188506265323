import IndentedSass.Text

/-!
# Headers

The grammars of the lines that introduce statements: directives, mixins, assignments and
properties. Each reader takes the text of a line and returns its parts, or nothing when the line
is not of that form.
-/

namespace IndentedSass.Header
open Ascii

/-- A byte of a name. -/
def isName (c : UInt8) : Bool := isWord c || c == minus

/-- The marks that start a variable. -/
def isSigil (c : UInt8) : Bool := c == bang || c == dollar

/-- What follows the blanks at the start of a text, at least one of which is required. -/
def afterBlanks? : Text → Option Text
  | c :: s => if isBlank c then some (s.dropWhile isBlank) else none
  | [] => none

/-- What follows the blanks at the start of a text, where at least one blank is required and at
least one byte is left over, if need be a blank. -/
def operand? (s : Text) : Option Text :=
  match afterBlanks? s with
  | none => none
  | some [] => if s.length < 2 then none else some (s.drop (s.length - 1))
  | some rest => some rest

/-- A non-empty name at the start of a text, and what follows it. -/
def name? (s : Text) : Option (Text × Text) :=
  let name := s.takeWhile isName
  if name.isEmpty then none else some (name, s.dropWhile isName)

/-- A variable at the start of a text: a mark and a name, and what follows. -/
def sigilName? : Text → Option (Text × Text)
  | c :: s => if isSigil c then name? s else none
  | [] => none

/-- The keyword of a directive, and what follows it. -/
def keyword? : Text → Option (Text × Text)
  | atSign :: s =>
    let word := s.takeWhile isWord
    if word.isEmpty then none else some (word, s.dropWhile isWord)
  | _ => none

/-! ## Loops and alternatives -/

/-- The parts of a counting loop. -/
structure Count where
  var : Text
  first : Text
  inclusive : Bool
  bound : Text
  step : Text
  deriving DecidableEq, Repr

/-- The step clause at the start of a text that holds nothing else. -/
def step? (s : Text) : Option Text := do
  let s ← afterBlanks? s
  let s ← Text.after? "step" s
  operand? s

/-- The bound of a loop and its step. The bound is the shortest one after which a step clause or
nothing follows; the step is one unless it is given. -/
def bound : Text → Text × Text
  | [] => ([], "1")
  | c :: s =>
    match s, step? s with
    | [], _ => ([c], "1")
    | _, some step => ([c], step)
    | _, none =>
      let (rest, step) := bound s
      (c :: rest, step)

/-- The keyword that ends the first value of a loop, and what follows it. -/
def limit? (s : Text) : Option (Bool × Text) := do
  let s ← afterBlanks? s
  match Text.after? "through" s with
  | some rest => return (true, ← operand? rest)
  | none =>
    let rest ← Text.after? "to" s
    return (false, ← operand? rest)

/-- The first value of a loop, the shortest one that a limit follows, and that limit. -/
def first? : Text → Option (Text × Bool × Text)
  | [] => none
  | c :: s =>
    match limit? s with
    | some (inclusive, rest) => some ([c], inclusive, rest)
    | none => (first? s).map fun (first, inclusive, rest) => (c :: first, inclusive, rest)

/-- The readings of a text after at least one blank, with as many blanks skipped as possible
first. -/
def afterSomeBlanks (s : Text) : List Text :=
  let blanks := (s.takeWhile isBlank).length
  (List.range blanks).map fun i => s.drop (blanks - i)

/-- A counting loop: `@for $i from 1 through 3 step 2`. -/
def count? (s : Text) : Option Count := do
  let s ← Text.after? "@for" s
  let s ← afterBlanks? s
  let (var, s) ← sigilName? s
  let s ← afterBlanks? s
  let s ← Text.after? "from" s
  let (first, inclusive, rest) ← (afterSomeBlanks s).findSome? first?
  let (bound, step) := bound rest
  return ⟨var, first, inclusive, bound, step⟩

/-- The test of an alternative: `@if $a`. -/
def test? (s : Text) : Option Text := do
  let s ← Text.after? "@if" s
  operand? s

/-- The test of a further alternative, which is empty for the last one: `@else if $a`, `@else`. -/
def otherwise? (s : Text) : Option Text := do
  let s ← Text.after? "@else" s
  if s.isEmpty then return []
  let s ← afterBlanks? s
  let s ← Text.after? "if" s
  operand? s

/-- The test of a loop, and whether the first round comes before it: `@while $a`, `@do $a`. -/
def repeat? (s : Text) : Option (Text × Bool) :=
  match Text.after? "@do" s with
  | some rest => (operand? rest).map (·, true)
  | none => do
    let rest ← Text.after? "@while" s
    return (← operand? rest, false)

/-! ## Mixins and variables -/

/-- A name and the text between the parentheses after it, empty without parentheses. -/
def signature? (s : Text) : Option (Text × Text) := do
  let (name, s) ← name? s
  match s.dropWhile isBlank with
  | [] => return (name, [])
  | lparen :: inner =>
    if inner.getLast? == some rparen then return (name, inner.dropLast) else none
  | _ => none

/-- A parameter and its default: `$a`, `$a: 1`, `$a = 1`. -/
def param? (s : Text) : Option (Text × Option Text) := do
  let (name, s) ← sigilName? s
  if s.isEmpty then return (name, none)
  match s.dropWhile isBlank with
  | c :: rest =>
    if c == equal || c == colon then
      match rest.dropWhile isBlank, rest.getLast? with
      | [], none => none
      | [], some last => return (name, some [last])
      | fallback, _ => return (name, some fallback)
    else none
  | [] => none

/-- The parts of an assignment. -/
structure Assignment where
  name : Text
  optional : Bool
  expr : Text
  deriving DecidableEq, Repr

/-- The sign of an assignment: whether it is optional, and what follows. -/
def assignSign? : Text → Option (Bool × Text)
  | bar :: bar :: equal :: s => some (true, s)
  | equal :: s => some (false, s)
  | colon :: s => some (false, s)
  | _ => none

/-- An assignment: `$a: 1`, `!a = 1`, `$a ||= 1`. -/
def assignment? (s : Text) : Option Assignment := do
  let (name, s) ← sigilName? s
  let (optional, s) ← assignSign? (s.dropWhile isBlank)
  return ⟨name, optional, s.dropWhile isBlank⟩

/-! ## Properties -/

/-- The parts of a property; `isScript` says that an equals sign marks its value as an
expression. -/
structure Declaration where
  name : Text
  isScript : Bool
  value : Text
  deriving DecidableEq, Repr

/-- What follows the sign of a property: a blank or the end of the line, then the value. -/
def declared? : Text → Option Text
  | [] => some []
  | s => afterBlanks? s

/-- A property with its name first: `color: red`, `width = 1 + 2`. One semicolon at the end does
not belong to the value. -/
def nameFirst? (s : Text) : Option Declaration := do
  let inName (c : UInt8) := !isBlank c && c != equal && c != colon && c != quote
  let name := s.takeWhile inName
  if name.isEmpty then none
  let rest := s.dropWhile inName
  match rest.dropWhile isBlank with
  | equal :: value => return ⟨name, true, Text.dropEnd ";" (← declared? value)⟩
  | _ =>
    match rest with
    | colon :: value => return ⟨name, false, Text.dropEnd ";" (← declared? value)⟩
    | _ => none

/-- A property with its colon first: `:color red`, `:width = 1 + 2`. -/
def colonFirst? : Text → Option Declaration
  | colon :: s =>
    let inName (c : UInt8) := !isBlank c && c != equal && c != colon
    let name := s.takeWhile inName
    if name.isEmpty then none
    else
      match s.dropWhile inName with
      | [] => some ⟨name, false, []⟩
      | rest =>
        match rest.dropWhile isBlank with
        | equal :: value => some ⟨name, true, value.dropWhile isBlank⟩
        | value => if value.length < rest.length then some ⟨name, false, value⟩ else none
  | _ => none

/-! ## References to variables -/

/-- The word at the start of a text that starts with a variable mark. -/
def reference? : Text → Option (UInt8 × Text)
  | c :: s =>
    let name := s.takeWhile isName
    if isSigil c && !name.isEmpty then some (c, name) else none
  | [] => none

/-- Whether a reference makes a value a script; `!important` does not. -/
def isScriptReference (ref : UInt8 × Text) : Bool :=
  ref.1 == dollar || ref.2 != ("important" : Text)

/-- Whether a variable is referenced in a text, read from a place that is not its start. A
reference follows a byte that is neither a backslash nor part of a word, and `skip` bytes belong
to the reference before. -/
def referencesFrom : (skip : Nat) → Text → Bool
  | _, [] => false
  | skip + 1, _ :: s => referencesFrom skip s
  | 0, c :: s =>
    match reference? s with
    | some ref =>
      if c != backslash && !isWord c then
        isScriptReference ref || referencesFrom (ref.2.length + 1) s
      else referencesFrom 0 s
    | none => referencesFrom 0 s

/-- Whether the text of a value references a variable. -/
def referencesVariable (s : Text) : Bool :=
  match reference? s with
  | some ref => isScriptReference ref || referencesFrom (ref.2.length + 1) s
  | none => referencesFrom 0 s

end IndentedSass.Header
