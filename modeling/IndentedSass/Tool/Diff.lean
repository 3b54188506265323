import IndentedSass.Text

/-!
# Showing differences

A difference is a sequence of pieces that stayed, came or went. On a terminal pieces are coloured;
elsewhere they stand between marks.
-/

namespace IndentedSass.Tool.Diff
open Ascii

/-- What became of a piece. -/
inductive Change where
  | same
  | added
  | removed
  deriving DecidableEq, Repr

/-- A piece of a difference. -/
structure Piece where
  change : Change
  text : Text
  deriving DecidableEq, Repr

/-- A piece as a terminal shows it. -/
def Piece.coloured (p : Piece) : Text :=
  match p.change with
  | .same => p.text
  | .added => escape :: "[32m" ++ p.text ++ escape :: "[0m"
  | .removed => escape :: "[31m" ++ p.text ++ escape :: "[0m"

/-- A piece between marks. -/
def Piece.marked (p : Piece) : Text :=
  match p.change with
  | .same => p.text
  | .added => "\x7b+" ++ p.text ++ "+\x7d"
  | .removed => "[-" ++ p.text ++ "-]"

/-- A difference under the path it belongs to. -/
def render (path : Text) (pieces : List Piece) (colour : Bool) : Text :=
  "--- " ++ path ++ "\n" ++
    pieces.flatMap (fun p => if colour then p.coloured else p.marked) ++ "\n"

/-- The length of the longest common start. -/
def commonStart : Text → Text → Nat
  | a :: s, b :: t => if a = b then commonStart s t + 1 else 0
  | _, _ => 0

/-- The difference between two texts: what they start and end with in common stays, and all between
is replaced. -/
def between (old new : Text) : List Piece :=
  let start := commonStart old new
  let old' : Text := old.drop start
  let new' : Text := new.drop start
  let tail := commonStart old'.reverse new'.reverse
  let pieces : List Piece :=
    [⟨.same, old.take start⟩, ⟨.removed, old'.take (old'.length - tail)⟩,
     ⟨.added, new'.take (new'.length - tail)⟩, ⟨.same, old'.drop (old'.length - tail)⟩]
  pieces.filter fun p => !p.text.isEmpty

end IndentedSass.Tool.Diff
