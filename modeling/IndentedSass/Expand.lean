import IndentedSass.Css
import IndentedSass.Scope
import IndentedSass.Expand.Selector
import IndentedSass.Expand.Span

/-!
# Expansion

`Expand.source` turns the tree of a source into a finished sheet: it evaluates expressions,
resolves selectors, runs loops, takes branches, applies mixins and splices imported files.

Imports go through an `Importer` with a state of its own. The files that are being imported are kept
on a stack: an import puts its file there and takes it off when it has ended, in whichever way. It
is refused if its file is there already, so imports alone cannot run in circles; loops and mixins
can, and so every step takes from a supply of fuel. Running out of it is kept apart from every
fault, and so is a text that is too long.
-/

namespace IndentedSass

/-- Loads the tree of a file for an import, given the target and the importing file. The state is
kept even when loading fails. -/
structure Importer (σ : Type) where
  load : (uri file : Text) → σ → Except Fault (Source × Text) × σ

namespace Expand

/-- Why an expansion ends early. -/
inductive Stop where
  | fault (f : Fault)
  /-- A repeated string would have this many bytes, more than any text can have. -/
  | overflow (length : Nat)
  | outOfFuel

/-- What the lack of a value means for an expansion. -/
def Stop.ofHalt : Script.Halt → Stop
  | .fault f => .fault f
  | .overflow length => .overflow length

/-- The fault of an expansion that stopped. -/
def Stop.toFault : Stop → Fault
  | .fault f => f
  | .overflow length => .plain ("no string has " ++ Text.ofNat length ++ " bytes")
  | .outOfFuel => .plain "the sheet does not end"

/-- A computation that uses the state of an importer and may end early. -/
abbrev Run (σ α : Type) := ExceptT Stop (StateM σ) α

/-- What stays the same during an expansion. -/
structure Settings (σ : Type) where
  palette : Script.Palette
  /-- The names to write in place of a property name. -/
  vendors : Bindings (List Text)
  importer : Option (Importer σ)

/-- Where a statement is expanded: the selectors around it, what is put before property names, and
the file that it was read from. -/
structure Place where
  selectors : List Text
  lead : Text
  file : Text

/-- What changes during an expansion: the files that are being imported, the innermost first, and
the state of the importer. -/
structure Status (σ : Type) where
  importing : List Text
  importer : σ

variable {σ : Type}

/-- The status with a file on the stack. -/
def Status.opened (path : Text) (s : Status σ) : Status σ :=
  { s with importing := path :: s.importing }

/-- The status without the innermost file. -/
def Status.closed (s : Status σ) : Status σ := { s with importing := s.importing.tail }

/-- Ends with a fault. -/
def fail {α : Type} (f : Fault) : Run σ α := throw (.fault f)

/-- The result of an evaluation, which may have none. -/
def lift {α : Type} : Except Script.Halt α → Run σ α
  | .ok a => pure a
  | .error halt => throw (.ofHalt halt)

/-- Loads a file in the course of an expansion. -/
def loading (importer : Importer σ) (uri file : Text) : Run σ (Source × Text) := fun state =>
  match importer.load uri file state with
  | (.ok loaded, state) => (.ok loaded, state)
  | (.error f, state) => (.error (.fault f), state)

/-- What the importer does leaves the stack as it is. -/
def asking {α : Type} (m : Run σ α) : Run (Status σ) α := fun s =>
  let (r, importer) := m s.importer
  (r, { s with importer })

/-- Takes the innermost file off the stack when something has ended, in whichever way. -/
def closing {α : Type} (m : Run (Status σ) α) : Run (Status σ) α := fun s =>
  let (r, s) := m s
  (r, s.closed)

/-- Runs something on a stack of its own. -/
def onStack {α : Type} (files : List Text) (m : Run (Status σ) α) : Run σ α := fun importer =>
  let (r, s) := m ⟨files, importer⟩
  (r, s.importer)

/-- Gives a fault without position the position of a statement. -/
def Stop.locate (pos : Position) : Stop → Stop
  | .fault f => .fault (f.locate pos)
  | .overflow length => .overflow length
  | .outOfFuel => .outOfFuel

/-- Gives faults without position the position of a statement. -/
def locating {α : Type} (pos : Position) (m : Run σ α) : Run σ α :=
  tryCatch m fun stop => throw (stop.locate pos)

/-! ## Parts of statements -/

/-- The selectors of one line, resolved. -/
def selectorLine (ctx : Script.Context) (parents : List Text) :
    List Text → Except Script.Halt (List Text)
  | [] => .ok []
  | s :: rest => do
    let s ← Script.interpolate ctx s
    let first ← (Selector.resolve parents s).mapError .fault
    let more ← selectorLine ctx parents rest
    return first ++ more

/-- The selectors of a rule, resolved, line by line. -/
def selectorLines (ctx : Script.Context) (parents : List Text) :
    List (List Text) → Except Script.Halt (List (List Text))
  | [] => .ok []
  | line :: rest => do
    let first ← selectorLine ctx parents line
    let more ← selectorLines ctx parents rest
    return first :: more

/-- The text of a property's value. -/
def propertyValue (ctx : Script.Context) (value : Text) (script : Bool) : Except Script.Halt Text :=
  if script then (Script.evaluate ctx value).map (Script.Value.text ctx.palette)
  else Script.interpolate ctx value

/-- The declarations for a property: the vendors' names first, and its own name unless it is one
of these. -/
def declarations (vendors : Bindings (List Text)) (name value : Text) : List Css :=
  let variants := (vendors.get? name).getD []
  let names := if variants.contains name then variants else variants ++ [name]
  names.map fun variant => .property variant value

/-- The scope in which a mixin runs: parameters are bound from left to right, an argument is
evaluated where the mixin is called, a default where the parameters before it are known. -/
def bindParams (palette : Script.Palette) (m : Mixin) (caller : Scope) :
    Scope → List Param → List Text → Except Script.Halt Scope
  | scope, [], _ => .ok scope
  | scope, p :: params, arg :: args =>
    match Script.evaluate (caller.context palette) arg with
    | .ok v => bindParams palette m caller (scope.set p.name v) params args
    | .error halt => .error (halt.tagged ("mixin " ++ m.name))
  | scope, p :: params, [] =>
    match p.fallback with
    | none =>
      .error (.of .missingArgument ("mixin " ++ m.name ++ " defined at " ++ m.pos.text ++
        " requires argument " ++ p.name.quoted))
    | some expr =>
      match Script.evaluate (scope.context palette) expr with
      | .ok v => bindParams palette m caller (scope.set p.name v) params []
      | .error halt => .error (halt.tagged ("mixin " ++ m.name))

/-- A mixin and the scope for its body. -/
def enterMixin (palette : Script.Palette) (scope : Scope) (name : Text) (args : List Text) :
    Except Script.Halt (Mixin × Scope) :=
  match scope.mixin? name with
  | none => .error (.of .undefinedMixin ("undefined mixin " ++ name.quoted))
  | some m =>
    if m.params.length < args.length then
      .error (.of .arityMismatch ("mixin " ++ name ++ " takes " ++ Text.ofNat m.params.length ++
        " arguments, got " ++ Text.ofNat args.length))
    else do
      let inner ← bindParams palette m scope scope.push m.params args
      return (m, inner)

/-- The branch to take, if any. -/
def chooseBranch (ctx : Script.Context) : List (Branch Statement) →
    Except Script.Halt (Option (Branch Statement))
  | [] => .ok none
  | b :: more =>
    if b.test.isEmpty then .ok (some b)
    else
      match Script.evaluate ctx b.test with
      | .ok v => if v.isTruthy then .ok (some b) else chooseBranch ctx more
      | .error halt => .error (halt.locate b.pos)

/-- The value of an expression that has to be a number. -/
def number (ctx : Script.Context) (s : Text) : Except Script.Halt Script.Number := do
  match ← Script.evaluate ctx s with
  | .number n => return n
  | _ => throw (.of .typeMismatch (s.quoted ++ " is not a number"))

/-- The span of a counting loop and the unit in which it counts, that of its first value. -/
def span (ctx : Script.Context) (first bound step : Text) (inclusive : Bool) :
    Except Script.Halt (Span Float × Text) := do
  let first ← number ctx first
  let bound ← number ctx bound
  let step ← number ctx step
  let bound ← (bound.inUnit first.unit).mapError .fault
  let step ← (step.inUnit first.unit).mapError .fault
  if step.value == 0 then throw (.of .typeMismatch "step must not be 0")
  return (⟨first.value, bound.value, step.value, inclusive⟩, first.unit)

/-- Puts the path of a file that is imported from another one on the stack; it must not be there
yet. -/
def pushing (file path : Text) : Run (Status σ) Unit := do
  if (← get).importing.contains path then
    fail (.of .importNotFound ("circular import of " ++ path ++ " from " ++ file))
  else modify (Status.opened path)

/-- The tree of an imported file and its path, which is on the stack from then on. -/
def importFile (settings : Settings σ) (file uri : Text) : Run (Status σ) (Source × Text) := do
  match settings.importer with
  | none =>
    fail (.language .importNotFound ("no importer for " ++ uri) .none (some .notFound))
  | some importer =>
    let (source, path) ← asking (loading importer uri file)
    pushing file path
    return (source, path)

/-! ## Statements -/

mutual

/-- Expands statements one after the other; each sees the scope that the one before left. `done`
holds what they expanded to so far, in reverse. -/
def statements (settings : Settings σ) (fuel : Nat) (place : Place) (done : List Css)
    (scope : Scope) (body : List Statement) : Run (Status σ) (List Css × Scope) :=
  match fuel with
  | 0 => throw .outOfFuel
  | fuel + 1 =>
    match body with
    | [] => return (done.reverse, scope)
    | s :: rest => do
      let (css, scope) ← locating s.pos (statement settings fuel place scope s)
      statements settings fuel place (css.reverse ++ done) scope rest

/-- Expands one statement. -/
def statement (settings : Settings σ) (fuel : Nat) (place : Place) (scope : Scope)
    (s : Statement) : Run (Status σ) (List Css × Scope) :=
  match fuel with
  | 0 => throw .outOfFuel
  | fuel + 1 =>
    let ctx := scope.context settings.palette
    match s with
    | .rule _ selectors body => do
      let lines ← lift (selectorLines ctx place.selectors selectors)
      let (css, scope) ← statements settings fuel
        { place with selectors := lines.flatten, lead := [] } [] scope body
      return ([.rule lines css], scope)
    | .property _ name value script body => do
      let name ← lift (Script.interpolate ctx name)
      let name := place.lead ++ name
      let own ← lift (if Statement.isNamespace value then .ok []
        else (propertyValue ctx value script).map (declarations settings.vendors name))
      let (css, scope) ← statements settings fuel { place with lead := name ++ "-" } [] scope body
      return (own ++ css, scope)
    | .assign _ name expr optional =>
      if optional && scope.has name then return ([], scope)
      else do
        let v ← lift (Script.evaluate ctx expr)
        return ([], scope.set name v)
    | .mixin pos name params body => return ([], scope.addMixin ⟨pos, name, params, body⟩)
    | .call _ name args => do
      let (m, inner) ← lift (enterMixin settings.palette scope name args)
      let (css, inner) ← statements settings fuel place [] inner m.body
      return (css, inner.pop.merge inner.inner)
    | .imports _ uri =>
      if Statement.isPlainImport uri then return ([.directive ("@import " ++ uri) []], scope)
      else do
        let (source, path) ← importFile settings place.file uri
        closing (statements settings fuel { place with file := path } [] scope source.body)
    | .forLoop _ var first bound inclusive step body => do
      let (r, unit) ← lift (span ctx first bound step inclusive)
      forRounds settings fuel place [] scope r r.first ⟨var, unit, body⟩
    | .choice head more => do
      match ← lift (chooseBranch ctx (head :: more)) with
      | none => return ([], scope)
      | some b => statements settings fuel place [] scope b.body
    | .whileLoop _ test runsFirst body =>
      whileRounds settings fuel place [] scope test runsFirst body
    | .directive _ text body => do
      let text ← lift (Script.interpolate ctx text)
      let (css, scope) ← statements settings fuel place [] scope body
      return ([.directive text css], scope)
    | .comment _ lines => return ([.comment lines], scope)

/-- The rounds of a counting loop from value `x` on, each in a frame of its own. -/
def forRounds (settings : Settings σ) (fuel : Nat) (place : Place) (done : List Css)
    (scope : Scope) (r : Span Float) (x : Float) (loop : Text × Text × List Statement) :
    Run (Status σ) (List Css × Scope) :=
  match fuel with
  | 0 => throw .outOfFuel
  | fuel + 1 =>
    if r.runs x then do
      let inner := scope.push.set loop.1 (.number ⟨x, loop.2.1⟩)
      let (css, inner) ← statements settings fuel place [] inner loop.2.2
      forRounds settings fuel place (css.reverse ++ done) inner.pop r (r.next x) loop
    else return (done.reverse, scope)

/-- The rounds of a loop with a test, of which the first may do without it. -/
def whileRounds (settings : Settings σ) (fuel : Nat) (place : Place) (done : List Css)
    (scope : Scope) (test : Text) (untested : Bool) (body : List Statement) :
    Run (Status σ) (List Css × Scope) :=
  match fuel with
  | 0 => throw .outOfFuel
  | fuel + 1 => do
    let goes ← if untested then pure true
      else (·.isTruthy) <$> lift (Script.evaluate (scope.context settings.palette) test)
    if goes then
      let (css, scope) ← statements settings fuel place [] scope body
      whileRounds settings fuel place (css.reverse ++ done) scope test false body
    else return (done.reverse, scope)

end

/-- The finished sheet of a source that was read from `file`, which may be empty. -/
def source (settings : Settings σ) (fuel : Nat) (file : Text) (src : Source) :
    Run σ (List Css) :=
  onStack (if file.isEmpty then [] else [file]) do
    let (css, _) ← statements settings fuel ⟨[], [], file⟩ [] .empty src.body
    return css

end Expand

end IndentedSass
