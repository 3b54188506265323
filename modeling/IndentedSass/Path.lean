import IndentedSass.Text

/-!
# Paths

Slash separated paths, worked on as texts. A path is clean when it has no empty element, no `.`
and no `..` except at the start of a relative path.
-/

namespace IndentedSass.Path
open Ascii

/-- Whether a path starts at the root. -/
def isAbs (p : Text) : Bool := p.head? == some slash

/-- The elements between the slashes. -/
def elements (p : Text) : List Text := p.splitOn slash

/-- Adds one element to a clean list of elements in reverse. Two dots take back the element before,
if there is one to take back; at the root they mean nothing. -/
def climb (rooted : Bool) (done : List Text) (e : Text) : List Text :=
  if e.isEmpty || e = ("." : Text) then done
  else if e = (".." : Text) then
    match done with
    | last :: rest =>
      if last = (".." : Text) then e :: done else rest
    | [] => if rooted then [] else [e]
  else e :: done

/-- The elements of the clean form of a path. -/
def cleanElements (p : Text) : List Text :=
  ((elements p).foldl (climb (isAbs p)) []).reverse

/-- The shortest path that means the same. -/
def clean (p : Text) : Text :=
  let body := Text.join "/" (cleanElements p)
  if isAbs p then slash :: body else if body.isEmpty then "." else body

/-- The parts joined by slashes, empty ones left out, in clean form. -/
def join (parts : List Text) : Text :=
  match parts.filter fun part => !part.isEmpty with
  | [] => []
  | parts => clean (Text.join "/" parts)

/-- The part of a path up to and including its last slash. -/
def upToSlash (p : Text) : Text := p.trimEndWhile (· != slash)

/-- The directory of a path, in clean form. -/
def dir (p : Text) : Text := clean (upToSlash p)

/-- The last element of a path; slashes at its end do not count. -/
def base (p : Text) : Text :=
  if p.isEmpty then "."
  else
    let p := p.trimEndWhile (· == slash)
    if p.isEmpty then "/" else p.drop (upToSlash p).length

/-- The ending of the last element from its last dot on; empty without a dot. -/
def ext (p : Text) : Text :=
  let last := p.drop (upToSlash p).length
  let stem : Text := Text.trimEndWhile (· != dot) last
  if stem.isEmpty then [] else last.drop (stem.length - 1)

/-- Whether a path names a place in a file tree: relative, clean and without `..`; a single dot
names the tree itself. -/
def isValid (p : Text) : Bool :=
  p = ("." : Text) ||
    (elements p).all fun e => !e.isEmpty && e != ("." : Text) && e != (".." : Text)

/-- The elements of two clean paths behind those that they start with in common. -/
def apart : List Text → List Text → List Text × List Text
  | a :: as, b :: bs => if a = b then apart as bs else (a :: as, b :: bs)
  | as, bs => (as, bs)

/-- The elements of a clean path below a root or below a working directory. -/
def steps (p : Text) : List Text :=
  if p = ("." : Text) || p = ("/" : Text) then []
  else elements (if isAbs p then p.drop 1 else p)

/-- The path that leads from `base` to `p`. There is none between a path from the root and one from
elsewhere, nor out of a directory that is known only by two dots. -/
def relative? (base p : Text) : Option Text :=
  let base := clean base
  let p := clean p
  if p = base then some "."
  else if isAbs base != isAbs p then none
  else
    match apart (steps base) (if p = ("." : Text) then [p] else steps p) with
    | (up :: ups, down) =>
      if up = (".." : Text) && !down.isEmpty then none
      else some (Text.join "/" (((up :: ups).map fun _ => Text.ofString "..") ++ down))
    | ([], down) => some (Text.join "/" down)

end IndentedSass.Path
