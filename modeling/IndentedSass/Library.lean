import IndentedSass.Cache.Bounded
import IndentedSass.Cache.Recent
import IndentedSass.Disk
import IndentedSass.Statement

/-!
# Libraries

A library finds the files that imports name and keeps parsed trees between compilations. Targets
are resolved against the importing file, the load paths and the template location. Resolved targets
are remembered; trees are remembered together with the time of their file and forgotten when that
has changed.
-/

namespace IndentedSass

/-- Where a library looks. -/
structure LibraryOptions where
  loadPaths : List Text
  templateLocation : Text
  /-- The number of trees to keep; one hundred unless it is positive. -/
  cacheSize : Int
  deriving DecidableEq, Repr

/-- A parsed tree and the time of the file it was read from. -/
structure CachedTree where
  source : Source
  mtime : Int

/-- An order in which trees are handed over. It may be any order, but no tree is left out. -/
structure HandOver where
  order : List (Text × Source) → List (Text × Source)
  perm : ∀ trees, (order trees).Perm trees

/-- Trees are handed over in the order they were loaded. -/
def HandOver.asLoaded : HandOver := ⟨id, fun trees => .refl trees⟩

/-- Where to look, how paths are written, and what is remembered. -/
structure Library where
  loadPaths : List Text
  templateLocation : Text
  /-- What stands before paths of the disk when they are given out. -/
  root : Text
  /-- The directory that relative paths start from; empty for the root of the disk. -/
  workDir : Text
  trees : Recent Text CachedTree
  resolved : Memo Text Text
  /-- How the trees of a compilation come in. -/
  handOver : HandOver

namespace Library

/-- The ending of source files. -/
def extension : Text := ".sass"

/-- A library without memories. -/
def new (o : LibraryOptions) (root workDir : Text) : Library :=
  let size := if o.cacheSize ≤ 0 then 100 else o.cacheSize
  ⟨o.loadPaths, o.templateLocation, root, workDir, .empty size.toNat,
    ⟨.empty (10 * size), fun _ => 0⟩, .asLoaded⟩

/-- A library whose paths start at the root of a disk. -/
def inMemory (o : LibraryOptions) : Library := new o [] []

/-- A library for the files of a machine, seen from a working directory. -/
def onMachine (o : LibraryOptions) (workDir : Text) : Library := new o "/" workDir

/-! ## Paths -/

/-- A path as the disk knows it. -/
def toDisk (lib : Library) (p : Text) : Text :=
  let p := if !lib.workDir.isEmpty && !Path.isAbs p then Path.join [lib.workDir, p] else p
  Path.clean (match p with
    | Ascii.slash :: rest => rest
    | p => p)

/-- A path of the disk as it is given out. -/
def fromDisk (lib : Library) (p : Text) : Text := lib.root ++ p

/-! ## Resolving -/

/-- The file name of an import target. -/
def fileName (uri : Text) : Text :=
  let name := uri.trim
  if extension.isSuffixOf name then name else name ++ extension

/-- Looks for a file in a directory and then in one directory after the other that is in it, until
there is one. Below a directory in it there are fewer directories than below itself, so the test on
their number always holds. -/
def find? (disk : Disk) (dir name : Text) : Option Text :=
  if disk.isFile (Path.join [dir, name]) then some (Path.join [dir, name])
  else (disk.dirsIn dir).findSome? fun inner =>
    if _h : (disk.dirsBelow inner).length < (disk.dirsBelow dir).length then
      find? disk inner name
    else none
termination_by (disk.dirsBelow dir).length

/-- The directories that are searched, in order. -/
def searched (lib : Library) : List Text :=
  lib.loadPaths ++ (if lib.templateLocation.isEmpty then [] else [lib.templateLocation])

/-- The path relative to the importing file, if that makes sense. -/
def sibling? (lib : Library) (name file : Text) : Option Text :=
  if file.isEmpty || Path.isAbs name then none
  else some (Path.join [Path.dir (lib.toDisk file), name])

/-- The file that an import target names: the name as given, next to the importing file, or below
one of the searched directories. -/
def resolve (lib : Library) (disk : Disk) (uri file : Text) : Except Fault Text :=
  let name := fileName uri
  let given := lib.toDisk name
  if disk.isFile given then .ok (lib.fromDisk given)
  else
    match (lib.sibling? name file).filter disk.isFile with
    | some p => .ok (lib.fromDisk p)
    | none =>
      match lib.searched.findSome? fun root => find? disk (lib.toDisk root) name with
      | some p => .ok (lib.fromDisk p)
      | none =>
        .error (.language .importNotFound ("unable to find " ++ name) .none (some .notFound))

/-- What a resolved target is remembered under. -/
def resolveKey (uri file : Text) : Text := uri ++ 0 :: file

/-- The file that an import target names, remembered from the last time if there was one. -/
def resolveCached (lib : Library) (disk : Disk) (uri file : Text) : Except Fault Text × Library :=
  let (result, resolved) :=
    lib.resolved.getOrCompute (resolveKey uri file) fun _ => lib.resolve disk uri file
  (result, { lib with resolved })

/-! ## Reading -/

/-- The text of a file. -/
def read (lib : Library) (disk : Disk) (p : Text) : Except Fault Text :=
  match disk.read (lib.toDisk p) with
  | .ok text => .ok text
  | .error .missing =>
    .error (.language .importNotFound ("unable to read " ++ p) .none (some .notFound))
  | .error (.other message) => .error (.tagged ("read " ++ p) (.plain message))

/-- When a file was changed last. -/
def modTime (lib : Library) (disk : Disk) (p : Text) : Except Fault Int :=
  match disk.modTime (lib.toDisk p) with
  | .ok time => .ok time
  | .error .missing => .error .notFound
  | .error (.other message) => .error (.tagged ("stat " ++ p) (.plain message))

/-- The tree remembered for a file, unless the file has another time by now; then it is
forgotten. -/
def getCached (lib : Library) (disk : Disk) (p : Text) : Option Source × Library :=
  match lib.trees.get? p with
  | (none, trees) => (none, { lib with trees })
  | (some entry, trees) =>
    match lib.modTime disk p with
    | .ok time =>
      if time = entry.mtime then (some entry.source, { lib with trees })
      else (none, { lib with trees := trees.erase p })
    | .error _ => (none, { lib with trees := trees.erase p })

/-- Remembers the tree of a file, if the file is there. -/
def putCached (lib : Library) (disk : Disk) (p : Text) (source : Source) : Library :=
  match lib.modTime disk p with
  | .ok time => { lib with trees := lib.trees.add p ⟨source, time⟩ }
  | .error _ => lib

end Library

end IndentedSass
