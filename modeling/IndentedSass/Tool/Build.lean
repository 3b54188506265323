import IndentedSass.Machine

/-!
# Building style sheets

Compiles source files and writes each style sheet to its output path, or compares what stands there
with a fresh one. Files are independent of each other: one that fails does not keep the others from
being written, and all failures are reported together.
-/

namespace IndentedSass.Tool
open Machine

/-- The ending of style sheets. -/
def sheetExtension : Text := ".css"

/-- The name of the style sheet of a source file. -/
def sheetName (src : Text) : Text :=
  Text.dropEnd Library.extension (Path.base src) ++ sheetExtension

/-- Where the style sheet of a source file goes: into the output directory, or next to the file when
there is none. -/
def outputPath (src outDir : Text) : Text :=
  Path.join [if outDir.isEmpty then Path.dir src else outDir, sheetName src]

/-- Compiles one file and writes its style sheet. -/
def buildOne (c : Compiler) (src dst : Text) : Action Unit := do
  let css ← (Machine.compiled c src).adapt (Fault.tagged src)
  act "create output directory" (makeDirs (Path.dir dst))
  act ("write " ++ dst) (write dst css)

/-- Compiles files one after the other and gathers the faults of those that fail. -/
def buildEach (c : Compiler) (outDir : Text) : List Text → Machine → List Fault × Machine
  | [], m => ([], m)
  | src :: rest, m =>
    match (buildOne c src (outputPath src outDir)).run m with
    | (.ok (), m) => buildEach c outDir rest m
    | (.error fault, m) =>
      let (faults, m) := buildEach c outDir rest m
      (fault :: faults, m)

/-- Compiles files into style sheets, at most `concurrency` of them at a time. -/
def build (c : Compiler) (files : List Text) (outDir : Text) (concurrency : Int) : Action Unit :=
  fun m =>
    if concurrency < 1 then (.error (.invalid "concurrency must be at least 1"), m)
    else
      let (faults, m) := buildEach c outDir files m
      match Fault.ofList faults with
      | none => (.ok (), m)
      | some fault => (.error fault, m)

/-! ## Checking -/

/-- An output path with what stands there, nothing if there is no file, and what should. -/
structure Stale where
  path : Text
  found : Text
  wanted : Text
  deriving DecidableEq, Repr

/-- The output path of a file if a fresh style sheet differs from what stands there. -/
def checkOne (c : Compiler) (outDir src : Text) : Action (Option Stale) := do
  let css ← (Machine.compiled c src).adapt (Fault.tagged src)
  let dst := outputPath src outDir
  let found ← match (← get).read dst with
    | .ok text => pure text
    | .error r =>
      if r.reason = .noEntry then pure [] else throw (.tagged ("read " ++ dst) r.fault)
  return if found = css then none else some ⟨dst, found, css⟩

/-- The output paths that are not up to date. -/
def check (c : Compiler) (outDir : Text) (files : List Text) : Action (List Stale) := do
  let found ← files.mapM (checkOne c outDir)
  return found.filterMap id

/-! ## Rebuilding -/

/-- Compiles all source files of a directory. The answer is the line to log when that fails. -/
def rebuild (c : Compiler) (dir outDir : Text) (m : Machine) : Option Text × Machine :=
  match m.collect dir Library.extension with
  | .error r => (some ("scan " ++ dir ++ " " ++ r.text), m)
  | .ok (files, _) =>
    match (build c files outDir 1).run m with
    | (.ok (), m) => (none, m)
    | (.error fault, m) => (some fault.text, m)

end IndentedSass.Tool
