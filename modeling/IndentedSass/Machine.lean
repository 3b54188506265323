import IndentedSass.Compiler

/-!
# Machines

A machine has a native disk and a working directory, and a clock that gives every write a time of
its own. Paths are followed element by element: every element on the way has to be a directory. What
the operating system refuses is reported with the operation, the path as it was given, and the
reason.
-/

namespace IndentedSass

/-- Why the operating system refuses an operation. -/
inductive Refusal where
  | noEntry
  | notDirectory
  | isDirectory
  | alreadyThere
  | nameTooLong
  | badPath
  deriving DecidableEq, Repr

/-- The wording of a reason. -/
def Refusal.text : Refusal → Text
  | .noEntry => "no such file or directory"
  | .notDirectory => "not a directory"
  | .isDirectory => "is a directory"
  | .alreadyThere => "file exists"
  | .nameTooLong => "file name too long"
  | .badPath => "invalid argument"

/-- A refused operation. -/
structure Refused where
  operation : Text
  path : Text
  reason : Refusal
  deriving DecidableEq, Repr

namespace Refused

/-- The message of a refused operation. -/
def text (r : Refused) : Text := r.operation ++ " " ++ r.path ++ ": " ++ r.reason.text

/-- The fault of a refused operation. -/
def fault (r : Refused) : Fault := .plain r.text

end Refused

/-- A world on a native disk, the working directory, and the time. -/
structure Machine where
  world : World
  workDir : Text
  clock : Int

namespace Machine

/-- What a machine does, and how it may fail. -/
abbrev Action (α : Type) := ExceptT Fault (StateM Machine) α

/-- A machine with a disk, where `o` says how imports are found. The directories of the disk stay
when they become empty. -/
def new (disk : Disk) (workDir : Text) (o : LibraryOptions) : Machine :=
  ⟨⟨{ disk with dirs := disk.allDirs }, .onMachine o workDir, []⟩, workDir, 1⟩

/-- The disk of a machine. -/
def disk (m : Machine) : Disk := m.world.disk

/-! ## Following paths -/

/-- Goes from a place of the disk to an element of it. -/
def step (d : Disk) (place e : Text) : Except Refusal Text :=
  match d.look place with
  | .dir =>
    if e.isEmpty || e = ("." : Text) then .ok place
    else if e = (".." : Text) then .ok (Path.dir place)
    else if e.length > 255 then .error .nameTooLong
    else .ok (Path.join [place, e])
  | .file _ => .error .notDirectory
  | _ => .error .noEntry

/-- The place on the disk that a path leads to. There need not be anything at that place. -/
def locate (m : Machine) (path : Text) : Except Refusal Text :=
  if path.isEmpty then .error .noEntry
  else if path.any (· == 0) then .error .badPath
  else
    let whole := if Path.isAbs path then path else m.workDir ++ "/" ++ path
    (Path.elements whole).foldlM (step m.disk) "."

/-- What a path leads to. -/
def look (m : Machine) (path : Text) : Except Refusal Disk.Look :=
  (m.locate path).map m.disk.look

/-! ## Files -/

/-- The text of a file. -/
def read (m : Machine) (path : Text) : Except Refused Text :=
  match m.look path with
  | .ok (.file f) => .ok f.text
  | .ok .dir => .error ⟨"read", path, .isDirectory⟩
  | .ok _ => .error ⟨"open", path, .noEntry⟩
  | .error reason => .error ⟨"open", path, reason⟩

/-- The machine after a change of its disk; time passes. -/
def changed (m : Machine) (disk : Disk) : Machine :=
  { m with world := { m.world with disk }, clock := m.clock + 1 }

/-- Writes a file into a directory that is there. -/
def write (path text : Text) (m : Machine) : Except Refused Machine :=
  match m.locate path with
  | .error reason => .error ⟨"open", path, reason⟩
  | .ok place =>
    match m.disk.look place with
    | .dir => .error ⟨"open", path, .isDirectory⟩
    | _ => .ok (m.changed (m.disk.write place ⟨text, m.clock⟩))

/-- Makes a directory in one that is there. -/
def makeDir (path : Text) (m : Machine) : Except Refused Machine :=
  match m.locate (path.trimEndWhile (· == Ascii.slash)) with
  | .error reason => .error ⟨"mkdir", path, reason⟩
  | .ok place =>
    match m.disk.look place with
    | .dir | .file _ => .error ⟨"mkdir", path, .alreadyThere⟩
    | _ => .ok (m.changed (m.disk.makeDir place))

/-- The paths on the way to a path, with the slashes behind them, and the path itself last. -/
def wayTo (path : Text) : List Text :=
  let es := Path.elements path
  let heads := (List.range (es.length - 1)).map fun i => Text.join "/" (es.take (i + 1)) ++ "/"
  (heads.filter fun head => head != ("/" : Text)) ++ [path]

/-- Makes a directory and those on the way to it, as far as they are missing. `path` is clean. -/
def makeDirs (path : Text) (m : Machine) : Except Refused Machine :=
  match m.look path with
  | .ok .dir => .ok m
  | .ok (.file _) => .error ⟨"mkdir", path, .notDirectory⟩
  | _ => (wayTo path).foldlM (fun m part =>
      match m.look part with
      | .ok .dir => .ok m
      | _ => m.makeDir part) m

/-! ## Walking -/

/-- Files with an ending and all directories below a directory, itself included, in the order of a
walk. A path that is no directory is the only one that is visited. -/
def collect (m : Machine) (dir ext : Text) : Except Refused (List Text × List Text) :=
  match m.locate dir with
  | .error reason => .error ⟨"lstat", dir, reason⟩
  | .ok place =>
    let shown (p : Text) : Text :=
      Path.join [dir, if place = ("." : Text) then p else p.drop (place.length + 1)]
    let fits (p : Text) : Bool := Path.ext p = ext
    match m.disk.look place with
    | .dir => .ok (((m.disk.filesBelow place).map shown).filter fits,
        dir :: (m.disk.dirsBelow place).map shown)
    | .file _ => .ok ([dir].filter fits, [])
    | _ => .error ⟨"lstat", dir, .noEntry⟩

/-! ## Compiling -/

/-- The style sheet of a file, and the files that were loaded for it. -/
def compile (c : Compiler) (path : Text) (m : Machine) :
    (Except Fault Text × List Text) × Machine :=
  let (compiled, world) := c.compileFile path m.world
  ((compiled.css.mapError Expand.Stop.toFault, compiled.files), { m with world })

/-- The style sheet of a file, as an action. -/
def compiled (c : Compiler) (path : Text) : Action Text := fun m =>
  let ((css, _), m) := compile c path m
  (css, m)

/-- A change of the machine as an action; a refusal gets a tag. -/
def act (tag : Text) (f : Machine → Except Refused Machine) : Action Unit := fun m =>
  match f m with
  | .ok m => (.ok (), m)
  | .error r => (.error (.tagged tag r.fault), m)

end Machine

end IndentedSass
