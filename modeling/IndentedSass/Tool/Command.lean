import IndentedSass.Options.File
import IndentedSass.Tool.Bundle
import IndentedSass.Tool.Diff
import IndentedSass.Tool.Flag
import IndentedSass.Tool.Publish
import IndentedSass.Watch

/-!
# The command line

The tool has a command for each thing it does. Options of the compiler can be given to every
command, before or after its name; those given go before the ones of a configuration file.
-/

namespace IndentedSass.Tool
open Ascii

/-- What a command line asks for. -/
inductive Job where
  /-- To be shown how the tool is used. -/
  | help
  | build (files : List Text) (outDir : Text) (concurrency : Int)
  | watch (dir outDir : Text)
  | check (files : List Text) (outDir : Text)
  | publish (files : List Text) (options : PublishOptions) (storage : StorageSetup)
  | bundle (entries : List Text)

/-- A job, and the flags that were given with it. -/
structure Command where
  job : Job
  given : Given

namespace Command

/-! ## Flags -/

/-- The flags of every command. -/
def commonFlags : List Flag :=
  [⟨"config", none, .text⟩, ⟨"style", none, .text⟩, ⟨"load-path", some 0x49, .list⟩,
   ⟨"template-location", none, .text⟩, ⟨"property-syntax", none, .text⟩,
   ⟨"css3-colours", none, .bool⟩]

/-- The flag that asks for help. -/
def helpFlag : Flag := ⟨"help", some 0x68, .bool⟩

/-- The flag for the output directory. -/
def outputFlag : Flag := ⟨"output", some 0x6f, .text⟩

/-- The names of the commands, in the order they are suggested. -/
def names : List Text := ["compile", "watch", "check", "publish", "bundle", "completion"]

/-- The flags of a command besides the common ones. -/
def flagsOf (name : Text) : List Flag :=
  if name = ("compile" : Text) then [outputFlag, ⟨"concurrency", none, .int⟩]
  else if name = ("watch" : Text) || name = ("check" : Text) then [outputFlag]
  else if name = ("publish" : Text) then
    [⟨"bucket", none, .text⟩, ⟨"prefix", none, .text⟩, ⟨"link", none, .bool⟩,
     ⟨"storage-provider", none, .text⟩, ⟨"storage-endpoint", none, .text⟩,
     ⟨"storage-key", none, .text⟩, ⟨"storage-secret", none, .text⟩,
     ⟨"storage-secure", none, .bool⟩, ⟨"storage-link-expiry", none, .duration⟩]
  else if name = ("bundle" : Text) then [⟨"outdir", some 0x6f, .text⟩, ⟨"minify", none, .bool⟩]
  else []

/-! ## Finding the command -/

/-- Whether an argument is a flag whose value is the next argument. -/
def takesNext (flags : List Flag) (s : Text) : Bool :=
  let isKnownBool (p : Flag → Bool) : Bool := ((flags.find? p).map Flag.isBool).getD false
  if s.head? != some minus || s.any (· == equal) then false
  else if ("--" : Text).isPrefixOf s then !isKnownBool fun f => f.name = s.drop 2
  else s.length = 2 && !isKnownBool fun f => f.short = s[1]?

/-- The arguments that are neither flags nor values of flags. -/
def words (flags : List Flag) : List Text → List Text
  | [] => []
  | s :: rest =>
    if s = ("--" : Text) then []
    else if takesNext flags s then
      match rest with
      | _ :: next :: rest => words flags (next :: rest)
      | _ => []
    else if s.isEmpty || s.head? == some minus then words flags rest
    else s :: words flags rest

/-- The arguments without the first one that is the word `x`. -/
def withoutWord (flags : List Flag) (x : Text) : List Text → List Text
  | [] => []
  | s :: rest =>
    if s = ("--" : Text) then s :: rest
    else if takesNext flags s then
      match rest with
      | value :: rest => s :: value :: withoutWord flags x rest
      | [] => [s]
    else if s.head? != some minus && s = x then rest
    else s :: withoutWord flags x rest

/-! ## Suggestions -/

/-- One row of the table of edit distances: from the row before, for the next letter `a`. -/
def distanceRow (a : UInt8) : (left : Nat) → Text → List Nat → List Nat
  | left, b :: t, corner :: up :: row =>
    let here := min (min (left + 1) (up + 1)) (corner + if a = b then 0 else 1)
    here :: distanceRow a here t (up :: row)
  | _, _, _ => []

/-- How many letters have to be changed, added or left out to get from one word to another. -/
def distance (s t : Text) : Nat :=
  let row := s.foldl (fun row a =>
    let first := row.headD 0 + 1
    first :: distanceRow a first t row) (List.range (t.length + 1))
  row.getLastD 0

/-- The commands that may have been meant. -/
def suggestions (word : Text) : List Text :=
  let word := word.lower
  names.filter fun name => distance word name ≤ 2 || word.isPrefixOf name

/-- The fault of a word that is no command. -/
def unknown (word : Text) : Fault :=
  let hint : Text := match suggestions word with
    | [] => []
    | found =>
      let lines : Text := found.flatMap fun name => tab :: name ++ [newline]
      "\n\nDid you mean this?\n" ++ lines
  .plain ("unknown command " ++ word.quoted ++ " for \"sassc\"" ++ hint)

/-! ## Parsing -/

/-- The command that a command line names, if it names one, and its arguments. -/
def named? (args : List Text) : Except Fault (Option (Text × List Text)) :=
  match words commonFlags args with
  | [] => .ok none
  | word :: _ =>
    if names.contains word || word = ("help" : Text) then
      .ok (some (word, withoutWord commonFlags word args))
    else .error (unknown word)

/-- Refuses a command without arguments. -/
def needOne (args : List Text) : Except Fault Unit :=
  if args.isEmpty then .error (.plain "requires at least 1 arg(s), only received 0") else .ok ()

/-- The job of a command. -/
def jobOf (name : Text) (g : Given) : Except Fault Job := do
  let outDir := g.text "output" []
  if name = ("compile" : Text) then
    needOne g.args
    return .build g.args outDir (g.int "concurrency" 1)
  else if name = ("watch" : Text) then
    if g.args.length > 1 then
      throw (.plain ("accepts at most 1 arg(s), received " ++ Text.ofNat g.args.length))
    return .watch (g.args.headD ".") outDir
  else if name = ("check" : Text) then
    needOne g.args
    return .check g.args outDir
  else if name = ("publish" : Text) then
    needOne g.args
    return .publish g.args ⟨g.text "bucket" [], g.text "prefix" [], g.bool "link" false⟩
      ⟨g.text "storage-provider" "minio", g.text "storage-endpoint" "localhost:9000",
        g.bool "storage-secure" true⟩
  else if name = ("bundle" : Text) then
    needOne g.args
    return .bundle g.args
  else return .help

/-- Reads a command line. -/
def parse (args : List Text) : Except Fault Command := do
  let (name, args) := (← named? args).getD ([], args)
  let g ← parseFlags (commonFlags ++ flagsOf name ++ [helpFlag]) args
  if g.bool "help" false then return ⟨.help, g⟩
  return ⟨← jobOf name g, g⟩

/-! ## Running -/

/-- The options of the compiler: those of the configuration file, and over them the given ones. -/
def options (g : Given) (m : Machine) : Except Fault Options := do
  let o ← match g.text "config" [] with
    | [] => pure {}
    | path => Options.load path m
  return { o with
    style := g.text "style" o.style
    loadPaths := (g.list? "load-path").getD o.loadPaths
    templateLocation := g.text "template-location" o.templateLocation
    propertySyntax := g.text "property-syntax" o.propertySyntax
    css3Colours := g.bool "css3-colours" o.css3Colours }

/-- The compiler, and the machine with the library that it uses. -/
def compiler (g : Given) (m : Machine) : Except Fault (Compiler × Machine) := do
  let o ← options g m
  let c ← Compiler.new { o with cache := true }
  let library := Library.onMachine (Compiler.libraryOptions c.options) m.workDir
  return (c, { m with world := { m.world with library } })

/-- The fault of style sheets that are not up to date. -/
def staleFault? (stale : List Stale) : Option Fault :=
  if stale.isEmpty then none
  else some (.plain (Text.ofNat stale.length ++ " stale stylesheet(s)"))

/-- Does a job: what it prints, how it ends, and the machine after it. A watching job is done once
it has built everything and nothing keeps it from watching; a storage that could be reached is not
there. -/
def runJob (c : Compiler) (m : Machine) : Job → Text × Except Fault Unit × Machine
  | .help => ([], .ok (), m)
  | .build files outDir concurrency =>
    let (r, m) := (Tool.build c files outDir concurrency).run m
    ([], r, m)
  | .watch dir outDir =>
    let (log, m) := rebuild c dir outDir m
    let r := (Watch.start dir Library.extension m).map fun _ => ()
    ((log.map fun line => line ++ [newline]).getD [], r, m)
  | .check files outDir =>
    match (Tool.check c outDir files).run m with
    | (.error fault, m) => ([], .error fault, m)
    | (.ok stale, m) =>
      let shown := stale.flatMap fun s => Diff.render s.path (Diff.between s.found s.wanted) false
      match staleFault? stale with
      | none => (shown, .ok (), m)
      | some fault => (shown, .error fault, m)
  | .publish _ _ storage =>
    match storage.check with
    | .error fault => ([], .error fault, m)
    | .ok () => ([], .error (.plain "the storage cannot be reached"), m)
  | .bundle entries =>
    let (r, m) := (Bundle.run c entries).run m
    ([], r, m)

/-- What keeps a job from starting, whatever the options are. -/
def refusal? : Job → Option Fault
  | .publish _ o _ => if o.bucket.isEmpty then some (.invalid "missing --bucket") else none
  | _ => none

/-- Runs a command. -/
def run (command : Command) (m : Machine) : Text × Except Fault Unit × Machine :=
  match command.job, refusal? command.job with
  | .help, _ => ([], .ok (), m)
  | _, some fault => ([], .error fault, m)
  | job, none =>
    match compiler command.given m with
    | .error fault => ([], .error fault, m)
    | .ok (c, m) => runJob c m job

/-- Runs a command line. -/
def runArgs (args : List Text) (m : Machine) : Text × Except Fault Unit × Machine :=
  match parse args with
  | .error fault => ([], .error fault, m)
  | .ok command => command.run m

/-! ## Watching -/

/-- One rebuild of a watching command: the changes that led to it, the line that was logged if it
failed, and the disks before and after it. -/
structure Round where
  changed : Option (List Text)
  log : Option Text
  before : Disk
  after : Disk

/-- A rebuild. -/
def round (c : Compiler) (dir outDir : Text) (changed : Option (List Text)) (m : Machine) :
    Round × Machine :=
  let (log, m') := rebuild c dir outDir m
  (⟨changed, log, m.disk, m'.disk⟩, m')

/-- The rebuilds that groups of deeds lead to, one after the other. -/
def rounds (c : Compiler) (dir outDir : Text) :
    Watch.Watched → Machine → List (List Watch.Deed) → List Round
  | _, _, [] => []
  | watched, m, deeds :: rest =>
    let (m, watched, noticed) := Watch.notice watched m deeds
    match Watch.batchOf? Library.extension noticed with
    | none => rounds c dir outDir watched m rest
    | some changed =>
      let watched := Watch.refresh dir Library.extension m watched
      let (r, m) := round c dir outDir (some changed) m
      r :: rounds c dir outDir watched m rest

/-- Runs a watching command through groups of deeds: its rebuilds, and how it ends. -/
def watch (args : List Text) (m : Machine) (deeds : List (List Watch.Deed)) :
    List Round × Except Fault Unit :=
  match parse ("watch" :: args) with
  | .error fault => ([], .error fault)
  | .ok command =>
    match command.job with
    | .watch dir outDir =>
      match compiler command.given m with
      | .error fault => ([], .error fault)
      | .ok (c, m) =>
        let (first, m) := round c dir outDir none m
        match Watch.start dir Library.extension m with
        | .error fault => ([first], .error fault)
        | .ok watched => (first :: rounds c dir outDir watched m deeds, .ok ())
    | _ => ([], .ok ())

end Command

end IndentedSass.Tool
