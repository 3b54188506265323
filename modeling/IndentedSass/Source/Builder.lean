import IndentedSass.Line
import IndentedSass.Statement
import IndentedSass.Statement.Header
import IndentedSass.Script.Split
import IndentedSass.Text.Quoted

/-!
# From lines to statements

`Source.ofLines` builds the tree of a source. A line is classified by how it starts, takes the
lines that belong to it (the rest of a comment, the further lines of a selector) and then owns the
lines indented one level deeper. Blank lines carry no structure: whoever looks ahead passes over
them to the next line with something on it.
-/

namespace IndentedSass

/-- Which of the two ways to write a property are read as such. -/
inductive PropertySyntax where
  | either
  | nameFirst
  | colonFirst
  deriving DecidableEq, Repr

namespace PropertySyntax

/-- The way that an option names; anything unknown allows both. -/
def ofText (s : Text) : PropertySyntax :=
  if s = ("new" : Text) then .nameFirst else if s = ("old" : Text) then .colonFirst else .either

/-- A line as a property. Where both ways are read, a line at the outermost level that starts with
a colon and has no value is a selector. -/
def read? (way : PropertySyntax) (l : Line) : Option Header.Declaration :=
  match way with
  | .nameFirst => Header.nameFirst? l.text
  | .colonFirst => Header.colonFirst? l.text
  | .either =>
    match Header.nameFirst? l.text with
    | some d => some d
    | none => (Header.colonFirst? l.text).filter fun d => !(l.indent == 0 && d.value.isEmpty)

end PropertySyntax

namespace Source
open Ascii Script

/-- What a line turns out to be. -/
inductive Shape where
  /-- Nothing that reaches the tree. -/
  | skipped
  /-- A statement that nothing can be nested beneath. -/
  | closed (s : Statement)
  /-- A statement that still lacks what is nested beneath it. -/
  | opens (make : List Statement → Statement)
  /-- A further branch of the choice before it, which still lacks its body. -/
  | further (head : Branch Statement) (more : List (Branch Statement)) (test : Text)

/-- The fault of a line that does not have the form its start promises. -/
def malformed (l : Line) (what : Text) : Fault :=
  .of .badSelector ("malformed " ++ what ++ ": " ++ l.text.quoted)

/-- The lines ahead, from the first one on that is not blank. -/
def upcoming (lines : List Line) : List Line := lines.dropWhile Line.blank

/-- Whether the next line that is not blank is nested beneath `l`. -/
def isDeeper (l : Line) (rest : List Line) : Bool :=
  ((upcoming rest).head?.map fun next => decide (l.indent < next.indent)).getD false

/-- The lines nested beneath `l`, at any depth and without the blank ones among them, and the lines
after them. -/
def nested (l : Line) : List Line → List Line × List Line
  | [] => ([], [])
  | next :: rest =>
    if next.blank then nested l rest
    else if l.indent < next.indent then
      let beneath := nested l rest
      (next :: beneath.1, beneath.2)
    else ([], next :: rest)

/-- Refuses lines beneath `l`. -/
def leaf (l : Line) (rest : List Line) (what : Text) (s : Statement) :
    Except Fault (Shape × List Line) :=
  if isDeeper l rest then
    .error (.of .badIndent ("nesting is not allowed beneath " ++ what))
  else .ok (.closed s, rest)

/-! ## Comments -/

/-- The lines of a comment, from the text after its mark and the lines beneath it. An empty first
line is dropped, and so is the mark that closes the comment. -/
def commentLines (first : Text) (beneath : List Line) : List Text :=
  let lines := first.trim :: beneath.map Line.text
  let lines := match lines with
    | [] :: next :: more => next :: more
    | lines => lines
  lines.dropLast ++ (lines.getLast?.map fun last => (Text.dropEnd "*/" last).trim).toList

/-- A line that starts with a slash. -/
def comment (l : Line) (rest : List Line) : Except Fault (Shape × List Line) :=
  let (beneath, rest') := nested l rest
  match l.text with
  | slash :: slash :: _ => .ok (.skipped, rest')
  | slash :: asterisk :: first =>
    .ok (.closed (.comment l.position (commentLines first beneath)), rest')
  | _ => .error (.of .badSelector ("illegal comment " ++ l.text.quoted))

/-! ## Directives -/

/-- Whether a chain of alternatives has had its last branch. -/
def isFinished (more : List (Branch Statement)) : Bool :=
  (more.getLast?.map fun b => b.test.isEmpty).getD false

/-- A further branch for the statement before it. -/
def otherwise (l : Line) (rest : List Line) (before : Option Statement) :
    Except Fault (Shape × List Line) :=
  match Header.otherwise? l.text with
  | none => .error (malformed l "@else")
  | some test =>
    match before with
    | some (.choice head more) =>
      if isFinished more then .error (.of .badSelector "@else after the final @else")
      else .ok (.further head more test, rest)
    | _ => .error (.of .badSelector "@else must follow an @if")

/-- A line that starts with an at sign; `before` is the statement before it on the same level. -/
def directive (l : Line) (rest : List Line) (before : Option Statement) :
    Except Fault (Shape × List Line) :=
  match Header.keyword? l.text with
  | none => .error (malformed l "directive")
  | some (word, after) =>
    let key := word.lower
    if key = ("import" : Text) then
      let uri := after.trim
      if uri.isEmpty then .error (malformed l "@import")
      else leaf l rest "import directives" (.imports l.position (Text.dropEnd ";" uri))
    else if key = ("for" : Text) then
      match Header.count? l.text with
      | none => .error (malformed l "@for")
      | some c =>
        .ok (.opens (.forLoop l.position c.var c.first c.bound c.inclusive c.step), rest)
    else if key = ("if" : Text) then
      match Header.test? l.text with
      | none => .error (malformed l "@if")
      | some test => .ok (.opens fun body => .choice ⟨l.position, test, body⟩ [], rest)
    else if key = ("else" : Text) then otherwise l rest before
    else if key = ("while" : Text) || key = ("do" : Text) then
      match Header.repeat? l.text with
      | none => .error (malformed l ("@" ++ word))
      | some (test, runsFirst) => .ok (.opens (.whileLoop l.position test runsFirst), rest)
    else if key = ("debug" : Text) then .ok (.skipped, (nested l rest).2)
    else .ok (.opens (.directive l.position (Text.dropEnd "\x7b" l.text).trim), rest)

/-! ## Mixins and variables -/

/-- The arguments between parentheses; none when there is nothing but white space. -/
def splitArgs (s : Text) : List Text :=
  if s.isBlankText then [] else splitTopLevel comma s

/-- The parameters of a mixin. Once one has a default, all later ones need one. -/
def params (mixin : Text) : (optional : Bool) → List Text → Except Fault (List Param)
  | _, [] => .ok []
  | optional, raw :: rest =>
    match Header.param? raw with
    | none =>
      .error (.of .badSelector ("invalid parameter " ++ raw.quoted ++ " for mixin " ++ mixin))
    | some (name, fallback) =>
      if optional && fallback.isNone then
        .error (.of .badSelector ("mixin " ++ mixin ++ ": required parameter " ++ name ++
          " follows an optional one"))
      else do
        let later ← params mixin (optional || fallback.isSome) rest
        return ⟨name, fallback⟩ :: later

/-- A line that starts with an equals sign. -/
def mixin (l : Line) (rest : List Line) : Except Fault (Shape × List Line) :=
  if l.indent ≠ 0 then .error (.of .badSelector "mixins can only be defined at root level")
  else
    match Header.signature? (l.text.drop 1) with
    | none => .error (malformed l "mixin definition")
    | some (name, raw) => do
      let ps ← params name false (splitArgs raw)
      return (.opens (.mixin l.position name ps), rest)

/-- A line that starts with a plus sign. -/
def call (l : Line) (rest : List Line) : Except Fault (Shape × List Line) :=
  match Header.signature? (l.text.drop 1) with
  | none => .error (malformed l "mixin include")
  | some (name, raw) => leaf l rest "mixin includes" (.call l.position name (splitArgs raw))

/-- The expression of an assignment without the semicolon and the mark of an optional one, and
whether that mark is there. -/
def assigned (expr : Text) : Text × Bool :=
  let expr := Text.dropEnd ";" expr.trim
  let plain := Text.dropEnd "!default" expr
  if plain = expr then (expr, false) else (plain.trim, true)

/-- A line that starts with the mark of a variable. -/
def assign (l : Line) (rest : List Line) : Except Fault (Shape × List Line) :=
  match (Header.assignment? l.text).filter fun a => !a.expr.isBlankText with
  | none => .error (.of .badPropertySyntax ("invalid variable definition " ++ l.text.quoted ++
      ", name and expression required"))
  | some a =>
    let (expr, marked) := assigned a.expr
    leaf l rest "variables" (.assign l.position a.name expr (a.optional || marked))

/-! ## Properties and rules -/

/-- A line that reads as a property. -/
def property (l : Line) (rest : List Line) (d : Header.Declaration) :
    Except Fault (Shape × List Line) :=
  if l.indent = 0 then
    .error (.of .badPropertySyntax
      ("properties can not be assigned at root level: " ++ l.text.quoted))
  else
    let value := d.value.trim
    let script := d.isScript || Header.referencesVariable value
    .ok (.opens (.property l.position d.name value script), rest)

/-- The selectors of one line. -/
def selectors (s : Text) : List Text := (splitTopLevel comma s).filter fun part => !part.isEmpty

/-- The text of a selector line, without an opening brace at its end. -/
def selectorText (s : Text) : Text := (Text.dropEnd "\x7b" s).trim

/-- The lines of a selector: after a line that ends in a comma the next line that is not blank goes
on, if it is of the same level. -/
def selectorLines (level : Nat) (text : Text) : List Line →
    Except Fault (List (List Text) × List Line)
  | [] =>
    let s := selectorText text
    if s.getLast? = some comma then
      .error (.of .badSelector "selectors can not end in a comma")
    else .ok ([selectors s], [])
  | next :: rest =>
    let s := selectorText text
    if s.getLast? = some comma then
      if next.blank then selectorLines level text rest
      else if next.indent = level then do
        let (more, rest) ← selectorLines level next.text rest
        return (selectors s :: more, rest)
      else .error (.of .badSelector "selectors can not end in a comma")
    else .ok ([selectors s], next :: rest)

/-- A line that is nothing else. -/
def rule (l : Line) (rest : List Line) : Except Fault (Shape × List Line) := do
  let (lines, rest) ← selectorLines l.indent l.text rest
  return (.opens (.rule l.position lines), rest)

/-! ## The tree -/

/-- What a line is, and the lines left once it has taken its own. -/
def classify (way : PropertySyntax) (l : Line) (rest : List Line) (before : Option Statement) :
    Except Fault (Shape × List Line) :=
  match l.text with
  | slash :: _ => comment l rest
  | atSign :: _ => directive l rest before
  | equal :: _ => mixin l rest
  | plus :: _ => call l rest
  | bang :: _ => assign l rest
  | dollar :: _ => assign l rest
  | _ =>
    match way.read? l with
    | some d => property l rest d
    | none => rule l rest

/-- Gives a fault without position the position of a line. -/
def locating {α : Type} (l : Line) : Except Fault α → Except Fault α
  | .ok a => .ok a
  | .error fault => .error (fault.locate l.position)

/-- The statements of level `level` at the start of the lines, and the lines after them. `done`
holds the statements before them in reverse, and `fuel` is at least the number of lines that are not
blank. -/
def build (way : PropertySyntax) : (fuel : Nat) → (level : Nat) → (done : List Statement) →
    List Line → Except Fault (List Statement × List Line)
  | 0, _, done, lines => .ok (done.reverse, lines)
  | fuel + 1, level, done, lines =>
    match upcoming lines with
    | [] => .ok (done.reverse, [])
    | l :: rest =>
      if l.indent < level then .ok (done.reverse, l :: rest)
      else if level < l.indent then
        .error ((Fault.of .badIndent ("indentation level can only increase by one, got " ++
          Text.ofNat l.indent ++ " after " ++ Text.ofInt ((level : Int) - 1))).locate l.position)
      else do
        let (shape, rest) ← locating l (classify way l rest done.head?)
        match shape with
        | .skipped => build way fuel level done rest
        | .closed s => build way fuel level (s :: done) rest
        | .opens make =>
          let (body, rest) ← build way fuel (level + 1) [] rest
          build way fuel level (make body :: done) rest
        | .further head more test =>
          let (body, rest) ← locating l (build way fuel (level + 1) [] rest)
          build way fuel level
            (.choice head (more ++ [⟨l.position, test, body⟩]) :: done.tail) rest

/-- The position of a source: that of its first line, blank or not. -/
def start : List Line → Position
  | [] => .none
  | l :: _ => ⟨l.file, l.number, 0⟩

/-- The tree of a source from its lines. -/
def ofLines (way : PropertySyntax) (lines : List Line) : Except Fault Source := do
  let (body, _) ← build way (lines.countP fun l => !l.blank) 0 [] lines
  return ⟨start lines, body⟩

/-- The tree of a source text whose first line has number `first`. -/
def parse (way : PropertySyntax) (source file : Text) (first : Int) : Except Fault Source := do
  let lines ← Line.ofSource source file first
  ofLines way lines

end Source

end IndentedSass
