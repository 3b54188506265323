import IndentedSass.Machine
import IndentedSass.Watch.Debounce

/-!
# Watching directories

A watcher notices what happens to the files right inside the directories it watches. It starts with
a directory and all below it; directories made later are watched from the next batch on.
-/

namespace IndentedSass.Watch

/-- What happens on a machine while it is watched. -/
inductive Deed where
  | write (path text : Text)
  | makeDir (path : Text)
  | remove (path : Text)
  | move (path target : Text)
  deriving DecidableEq, Repr

namespace Deed

/-- Moves a file or a directory with all below it to another place of a disk. -/
def rename (d : Disk) (source target : Text) : Disk :=
  let moved (p : Text) : Text :=
    if p = source then target
    else if Disk.isBelow source p then target ++ p.drop source.length
    else p
  { d with
    files := (d.files.filter fun entry => entry.1 != target).map fun (p, f) => (moved p, f)
    dirs := d.dirs.map moved }

/-- Removes a file, or a directory with all below it. -/
def erase (d : Disk) (place : Text) : Disk :=
  let stays (p : Text) : Bool := p != place && !Disk.isBelow place p
  { d with
    files := d.files.filter fun entry => stays entry.1
    dirs := d.dirs.filter stays }

/-- The machine after a deed; one that is impossible changes nothing. -/
def apply (m : Machine) : Deed → Machine
  | .write path text => (m.write path text).toOption.getD m
  | .makeDir path => (m.makeDirs (Path.clean path)).toOption.getD m
  | .remove path =>
    match m.locate path with
    | .ok place => m.changed (erase m.disk place)
    | .error _ => m
  | .move path target =>
    match m.locate path, m.locate target with
    | .ok source, .ok target => m.changed (rename m.disk source target)
    | _, _ => m

/-- The places of the disk where a deed shows, in order. -/
def places (m : Machine) : Deed → List Text
  | .write path _ | .makeDir path => (m.locate path).toOption.toList
  | .remove path =>
    match m.locate path with
    | .ok place => m.disk.filesBelow place ++ (m.disk.dirsBelow place).reverse ++ [place]
    | .error _ => []
  | .move path target => (m.locate path).toOption.toList ++ (m.locate target).toOption.toList

end Deed

/-- The watched directories: each by its place on the disk and the path it is shown under. -/
abbrev Watched := List (Text × Text)

/-- The path under which a place shows, if its directory is watched. -/
def nameOf? (watched : Watched) (place : Text) : Option Text :=
  (watched.lookup (Path.dir place)).map fun shown => shown ++ "/" ++ Path.base place

/-- Watches a directory and all below it. -/
def start (dir ext : Text) (m : Machine) : Except Fault Watched :=
  match m.collect dir ext with
  | .error r => .error (.tagged ("scan " ++ dir) r.fault)
  | .ok (_, dirs) => .ok (dirs.filterMap fun d =>
      (m.locate d).toOption.map fun place => (place, Path.clean d))

/-- Watches the directories that have come since. -/
def refresh (dir ext : Text) (m : Machine) (watched : Watched) : Watched :=
  match start dir ext m with
  | .error _ => watched
  | .ok now => watched ++ now.filter fun entry => (watched.lookup entry.1).isNone

/-- Does some deeds in a row: the machine after them, the directories still watched, and the names
that were noticed, in order. -/
def notice (watched : Watched) (m : Machine) : List Deed → Machine × Watched × List Text
  | [] => (m, watched, [])
  | deed :: rest =>
    let names := (deed.places m).filterMap (nameOf? watched)
    let m := deed.apply m
    let watched := watched.filter fun entry => m.disk.isDir entry.1
    let (m, watched, more) := notice watched m rest
    (m, watched, names ++ more)

/-- The batch of deeds that fall close together, if any of their names count. -/
def batchOf? (ext : Text) (names : List Text) : Option (List Text) :=
  (batches ext .empty (names.map Signal.changed ++ [Signal.quiet])).head?

end IndentedSass.Watch
