import IndentedSass.Compiler
import IndentedSass.Service.Sheet
import IndentedSass.Service.Store

/-!
# Serving style sheets

Serves the style sheets below the template location by name. A sheet is kept and served again as
long as none of its files has another time. Before a sheet is compiled, the shared store is asked
for one that another instance has made.
-/

namespace IndentedSass.Service

/-- How sheets are served. -/
structure SheetOptions where
  options : Options
  /-- How many sheets are kept; one hundred unless it is positive. -/
  cacheSize : Int
  /-- How long sheets stay in the shared store, in nanoseconds; a day unless it is positive. -/
  storeTime : Int
  /-- The size of the largest sheet that is shared; any size unless it is positive. -/
  storeLimit : Int

/-- The sheets of one instance. Each sheet that it keeps has a number, and a sheet that is made anew
gets a new one. -/
structure Sheets where
  setup : SheetOptions
  library : Library
  kept : Recent Text (Nat × Sheet)
  count : Nat

/-- What an instance works on besides its own memory: the disk and the shared store, if there is
one. -/
structure Surroundings where
  disk : Disk
  store : Option Store
  /-- The time stamp of sheets that are compiled now. -/
  now : Text

namespace Sheets

/-- The compiler for a style. -/
def compilerFor (o : Options) (style : Style) : Except Fault Compiler :=
  Compiler.new { o with style := style.name, cache := true }

/-- An instance that has no sheets yet. -/
def new (setup : SheetOptions) (library : Library) : Except Fault Sheets := do
  let options := setup.options.filled
  if options.templateLocation.isEmpty then throw (.invalid "missing template_location")
  let _ ← Style.all.mapM (compilerFor options)
  let cacheSize := if setup.cacheSize ≤ 0 then 100 else setup.cacheSize
  let storeTime := if setup.storeTime ≤ 0 then 86400000000000 else setup.storeTime
  return ⟨{ setup with options, cacheSize, storeTime }, library, .empty cacheSize.toNat, 0⟩

/-- What a sheet is kept under. -/
def keyOf (name style : Text) : Text := "sass:" ++ style ++ ":" ++ name

/-- The file of a sheet. The name is made clean below a root first, so that it cannot lead out of
the location. -/
def fileOf (location name : Text) : Text :=
  Path.join [location, (Path.clean ("/" ++ name)).drop 1 ++ Library.extension]

/-- The nanoseconds of a time in seconds, as a number of 64 bits. -/
def nanoseconds (seconds : Int) : Int := Int.bmod (seconds * 1000000000) (Nat.pow 2 64)

/-- Whether no file of a sheet has changed. -/
def isFresh (m : Sheets) (disk : Disk) (s : Sheet) : Bool :=
  s.files.length = s.modTimes.length &&
    (s.files.zip s.modTimes).all fun (file, time) =>
      match m.library.modTime disk file with
      | .ok t => nanoseconds t = time
      | .error _ => false

/-- Keeps a sheet under a new number. -/
def keep (m : Sheets) (key : Text) (s : Sheet) : (Nat × Sheet) × Sheets :=
  ((m.count, s), { m with kept := m.kept.add key (m.count, s), count := m.count + 1 })

/-- The sheet of the shared store, if it still holds. -/
def shared? (m : Sheets) (around : Surroundings) (key : Text) : Option Sheet := do
  let store ← around.store
  let text ← store.get? key
  let s ← Sheet.read? text
  if m.isFresh around.disk s then return s else none

/-- Puts a sheet into the shared store, unless it is too large. -/
def share (m : Sheets) (key : Text) (s : Sheet) (around : Surroundings) : Surroundings :=
  if 0 < m.setup.storeLimit && m.setup.storeLimit < s.css.length then around
  else { around with
    store := around.store.map fun store => store.put key s.toJson.render m.setup.storeTime }

/-- The times of files, in nanoseconds. -/
def timesOf (m : Sheets) (disk : Disk) (files : List Text) : Except Fault (List Int) :=
  files.mapM fun file =>
    match m.library.modTime disk file with
    | .ok t => .ok (nanoseconds t)
    | .error fault => .error (.tagged ("stat " ++ file) fault)

/-- A sheet compiled anew. The times of the files are taken after that, so that a change in the
meantime shows at the next request. -/
def compile (m : Sheets) (c : Compiler) (name : Text) (around : Surroundings) :
    Except Fault Sheet × Sheets :=
  let file := fileOf m.setup.options.templateLocation name
  let (compiled, world) := c.compileFile file ⟨around.disk, m.library, []⟩
  let m := { m with library := world.library }
  match compiled.css with
  | .error stop => (.error stop.toFault, m)
  | .ok css =>
    match m.timesOf around.disk compiled.files with
    | .error fault => (.error fault, m)
    | .ok modTimes => (.ok ⟨css, c.options.style, compiled.files, modTimes, around.now⟩, m)

/-- The sheet with a name in a style, the default style if none is given, with its number. -/
def get (name style : Text) (m : Sheets) (around : Surroundings) :
    Except Fault (Nat × Sheet) × Sheets × Surroundings :=
  let style := if style.isEmpty then m.setup.options.style else style
  match (Style.ofName? style).map (compilerFor m.setup.options) with
  | none => (.error (.invalid ("unknown style: " ++ style)), m, around)
  | some (.error fault) => (.error fault, m, around)
  | some (.ok c) =>
    let key := keyOf name style
    let (found, kept) := m.kept.get? key
    let m := { m with kept }
    match found.filter fun entry => m.isFresh around.disk entry.2 with
    | some entry => (.ok entry, m, around)
    | none =>
      match m.shared? around key with
      | some s =>
        let (entry, m) := m.keep key s
        (.ok entry, m, around)
      | none =>
        match m.compile c name around with
        | (.error fault, m) => (.error fault, m, around)
        | (.ok s, m) =>
          let (entry, m) := m.keep key s
          (.ok entry, m, m.share key s around)

end Sheets

end IndentedSass.Service
