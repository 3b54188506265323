import IndentedSass.Path
import IndentedSass.Fault

/-!
# Disks

A disk is a tree of files, given by the paths of its files. Every path on the way to a file is a
directory, and there may be further empty directories. A disk in memory knows only whether a path
exists; a native one also tells why it does not.
-/

namespace IndentedSass

/-- A file: its text and when it was changed last, in seconds. -/
structure File where
  text : Text
  mtime : Int
  deriving DecidableEq, Repr

/-- Files by path, further directories, and how faults are reported. -/
structure Disk where
  files : List (Text × File)
  dirs : List Text
  isNative : Bool
  deriving DecidableEq, Repr

namespace Disk
open Ascii

/-- An empty disk in memory. -/
def empty : Disk := ⟨[], [], false⟩

/-! ## Changing -/

/-- Writes a file, in place of an old one if there is one. -/
def write (d : Disk) (path : Text) (f : File) : Disk :=
  { d with files := d.files.filter (fun entry => entry.1 != path) ++ [(path, f)] }

/-- Removes a file or an empty directory. -/
def remove (d : Disk) (path : Text) : Disk :=
  { d with
    files := d.files.filter fun entry => entry.1 != path
    dirs := d.dirs.filter fun dir => dir != path }

/-- Makes a directory. -/
def makeDir (d : Disk) (path : Text) : Disk :=
  if d.dirs.contains path then d else { d with dirs := d.dirs ++ [path] }

/-! ## Looking -/

/-- What is found at a path. -/
inductive Look where
  | file (f : File)
  | dir
  | missing
  /-- A file is in the way. -/
  | blocked
  /-- No path of a file tree. -/
  | invalid
  /-- An element is longer than a name can be. -/
  | tooLong
  deriving DecidableEq, Repr

/-- The directories on the way to a path, the outermost first. -/
def ancestors (path : Text) : List Text :=
  let es := Path.elements path
  (List.range (es.length - 1)).map fun i => Text.join "/" (es.take (i + 1))

/-- Whether `path` lies below the directory `dir`. -/
def isBelow (dir path : Text) : Bool :=
  if dir = ("." : Text) then path != ("." : Text)
  else (dir ++ "/" : Text).isPrefixOf path

/-- The file at a path. -/
def file? (d : Disk) (path : Text) : Option File := d.files.lookup path

/-- Whether a path is a directory. -/
def isDir (d : Disk) (path : Text) : Bool :=
  path = ("." : Text) || d.dirs.contains path ||
    d.files.any (fun entry => isBelow path entry.1) || d.dirs.any (isBelow path)

/-- Whether an element of a path is longer than a name can be. -/
def hasLongName (path : Text) : Bool := (Path.elements path).any fun e => e.length > 255

/-- What is found at a path. -/
def look (d : Disk) (path : Text) : Look :=
  if !Path.isValid path || (d.isNative && path.any (· == 0)) then
    if d.isNative then .invalid else .missing
  else
    match d.file? path with
    | some f => .file f
    | none =>
      if d.isDir path then .dir
      else if d.isNative && (ancestors path).any fun dir => (d.file? dir).isSome then .blocked
      else if d.isNative && hasLongName path && (ancestors path).all d.isDir then .tooLong
      else .missing

/-- Whether there is a regular file at a path. -/
def isFile (d : Disk) (path : Text) : Bool :=
  match d.look path with
  | .file _ => true
  | _ => false

/-! ## Listing -/

/-- All paths of directories, each once, in no particular order. A file may stand at one of them. -/
def dirPaths (d : Disk) : List Text :=
  (d.dirs ++ (d.files.map Prod.fst ++ d.dirs).flatMap ancestors).eraseDups

/-- Whether a walk from `dir` comes to the directory `path`: there is no file where it starts, where
it ends, or in between. What lies on the way to `dir` plays no part. -/
def isReached (d : Disk) (dir path : Text) : Bool :=
  isBelow dir path && !(d.file? dir).isSome && !(d.file? path).isSome &&
    (ancestors path).all fun up => !isBelow dir up || !(d.file? up).isSome

/-- All directories but the outermost, in no particular order. -/
def allDirs (d : Disk) : List Text := d.dirPaths.filter (d.isReached ".")

/-- The order of a walk that lists names in order and enters each directory when it comes to it. -/
def walkOrder : List Text → List Text → Bool
  | [], _ => true
  | _ :: _, [] => false
  | a :: as, b :: bs =>
    match Text.order a b with
    | .lt => true
    | .gt => false
    | .eq => walkOrder as bs

/-- Paths in the order of a walk. -/
def sortWalk (paths : List Text) : List Text :=
  paths.mergeSort fun a b => walkOrder (Path.elements a) (Path.elements b)

/-- The directories below a directory, at any depth, in the order of a walk. -/
def dirsBelow (d : Disk) (dir : Text) : List Text :=
  sortWalk (d.dirPaths.filter (d.isReached dir))

/-- The directories in a directory, in the order of their names. -/
def dirsIn (d : Disk) (dir : Text) : List Text :=
  (d.dirsBelow dir).filter fun p => Path.dir p = dir

/-- The files below a directory, at any depth, in the order of a walk. -/
def filesBelow (d : Disk) (dir : Text) : List Text :=
  sortWalk ((d.files.map Prod.fst).filter (isBelow dir))

/-! ## Reading -/

/-- Why a path cannot be read; `missing` is the one reason that callers tell apart. -/
inductive ReadFault where
  | missing
  | other (message : Text)
  deriving DecidableEq, Repr

/-- The message of an operation that failed at a path. -/
def failed (operation path reason : Text) : ReadFault :=
  .other (operation ++ " " ++ path ++ ": " ++ reason)

/-- The text of a file. -/
def read (d : Disk) (path : Text) : Except ReadFault Text :=
  match d.look path with
  | .file f => .ok f.text
  | .dir =>
    .error (failed "read" path (if d.isNative then "is a directory" else "invalid argument"))
  | .missing => .error .missing
  | .blocked => .error (failed "open" path "not a directory")
  | .invalid => .error (failed "readfile" path "invalid argument")
  | .tooLong => .error (failed "open" path "file name too long")

/-- The time that directories report: the start of the first year. -/
def noTime : Int := -62135596800

/-- When a file was changed last. -/
def modTime (d : Disk) (path : Text) : Except ReadFault Int :=
  match d.look path with
  | .file f => .ok f.mtime
  | .dir => .ok noTime
  | .missing => .error .missing
  | .blocked => .error (failed "stat" path "not a directory")
  | .invalid => .error (failed "stat" path "invalid argument")
  | .tooLong => .error (failed "stat" path "file name too long")

end Disk

end IndentedSass
