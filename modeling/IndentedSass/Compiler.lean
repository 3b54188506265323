import IndentedSass.Expand
import IndentedSass.Library
import IndentedSass.Options

/-!
# Compilation

A compiler turns source texts and files into style sheets. It works on a `World`: a disk and a
library that remembers things between compilations. Fresh trees of one compilation go to the
library only when all of it has succeeded.
-/

namespace IndentedSass

/-- A disk, the library over it, and the files that were read through it, in order. -/
structure World where
  disk : Disk
  library : Library
  reads : List Text

namespace World

/-- Reads a file and notes that. -/
def read (w : World) (p : Text) : Except Fault Text × World :=
  (w.library.read w.disk p, { w with reads := w.reads ++ [p] })

/-- Resolves an import target. -/
def resolve (w : World) (uri file : Text) : Except Fault Text × World :=
  let (result, library) := w.library.resolveCached w.disk uri file
  (result, { w with library })

end World

/-- Options that have been checked, and how many steps an expansion may take. -/
structure Compiler where
  options : Options
  style : Style
  fuel : Nat

namespace Compiler

/-- The steps that an expansion may take, far more than any sheet that ends needs. -/
def ampleFuel : Nat := Nat.pow 2 60

/-- A compiler for the given options, completed by defaults. -/
def new (o : Options) : Except Fault Compiler := do
  let o := o.filled
  o.validate
  let style ← Options.parseStyle o.style
  return ⟨o, if o.ugly then .compressed else style, ampleFuel⟩

/-- The library options that go with the compiler's. -/
def libraryOptions (o : Options) : LibraryOptions := ⟨o.loadPaths, o.templateLocation, 0⟩

/-! ## Loading -/

/-- The state of one compilation: the world, the trees it has loaded, and their files in order. -/
structure Loader where
  world : World
  pending : List (Text × Source)
  files : List Text

/-- Nothing loaded yet. -/
def Loader.start (w : World) : Loader := ⟨w, [], []⟩

/-- How properties are written. -/
def propertySyntax (c : Compiler) : PropertySyntax := .ofText c.options.propertySyntax

/-- The remembered tree of a file, if the compiler uses them. -/
def cachedTree (c : Compiler) (w : World) (p : Text) : Option Source × World :=
  if c.options.cache then
    let (found, library) := w.library.getCached w.disk p
    (found, { w with library })
  else (none, w)

/-- The tree of a file: one loaded before, a remembered one, or the one read from the file. -/
def load (c : Compiler) (p : Text) (l : Loader) : Except Fault Source × Loader :=
  match l.pending.lookup p with
  | some source => (.ok source, l)
  | none =>
    let files := l.files ++ [p]
    match c.cachedTree l.world p with
    | (some source, world) => (.ok source, ⟨world, l.pending ++ [(p, source)], files⟩)
    | (none, world) =>
      match world.read p with
      | (.error fault, world) => (.error fault, ⟨world, l.pending, files⟩)
      | (.ok text, world) =>
        match Source.parse c.propertySyntax text p 1 with
        | .error fault => (.error fault, ⟨world, l.pending, files⟩)
        | .ok source => (.ok source, ⟨world, l.pending ++ [(p, source)], files⟩)

/-- Loads the file that an import names. -/
def loadImport (c : Compiler) (uri file : Text) (l : Loader) :
    Except Fault (Source × Text) × Loader :=
  match l.world.resolve uri file with
  | (.error fault, world) => (.error (.tagged ("import " ++ uri) fault), { l with world })
  | (.ok p, world) =>
    match c.load p { l with world } with
    | (.error fault, l) => (.error fault, l)
    | (.ok source, l) => (.ok (source, p), l)

/-- The importer of a compilation. -/
def importer (c : Compiler) : Importer Loader := ⟨c.loadImport⟩

/-- What an expansion needs to know. -/
def settings (c : Compiler) : Expand.Settings Loader :=
  ⟨c.options.palette, c.options.vendorProperties, some c.importer⟩

/-- Hands the loaded trees to the library, if the compiler uses it. -/
def commit (c : Compiler) (l : Loader) : World :=
  if c.options.cache then
    (l.world.library.handOver.order l.pending).foldl (fun w (p, source) =>
      { w with library := w.library.putCached w.disk p source }) l.world
  else l.world

/-! ## Compiling -/

/-- The style sheet of a tree; the loaded trees are handed on when it succeeds. -/
def render (c : Compiler) (source : Source) (file : Text) (l : Loader) :
    Except Expand.Stop Text × Loader :=
  match (Expand.source c.settings c.fuel file source).run l with
  | (.error stop, l) => (.error stop, l)
  | (.ok css, l) => (.ok (c.style.render css), { l with world := c.commit l })

/-- The tree of a source text. -/
def parse (c : Compiler) (source : Text) : Except Fault Source :=
  Source.parse c.propertySyntax source [] c.options.line

/-- The finished sheet of a source text. -/
def evaluate (c : Compiler) (source : Text) (w : World) : Except Expand.Stop (List Css) × World :=
  match c.parse source with
  | .error fault => (.error (.fault fault), w)
  | .ok source =>
    let (result, l) := (Expand.source c.settings c.fuel [] source).run (.start w)
    (result, l.world)

/-- The style sheet of a source text. -/
def compile (c : Compiler) (source : Text) (w : World) : Except Expand.Stop Text × World :=
  match c.parse source with
  | .error fault => (.error (.fault fault), w)
  | .ok source =>
    let (result, l) := c.render source [] (.start w)
    (result, l.world)

/-- A compiled file: its style sheet, and the files that were loaded for it, itself first. -/
structure Compiled where
  css : Except Expand.Stop Text
  files : List Text

/-- The style sheet of a file. The files are listed on failure as well, as far as it got. -/
def compileFile (c : Compiler) (path : Text) (w : World) : Compiled × World :=
  match w.resolve path [] with
  | (.error fault, w) => (⟨.error (.fault fault), []⟩, w)
  | (.ok p, w) =>
    match c.load p (.start w) with
    | (.error fault, l) => (⟨.error (.fault fault), l.files⟩, l.world)
    | (.ok source, l) =>
      let (css, l) := c.render source p l
      (⟨css, l.files⟩, l.world)

end Compiler

end IndentedSass
