import IndentedSass.Path

/-!
# Batches of changes

Changes come in bursts. Names of changed files are gathered until none has come for some time, and
then reported together, each once and in the order they came in. Only files with the right ending
count.
-/

namespace IndentedSass.Watch

/-- What a gatherer of changes is told. -/
inductive Signal where
  /-- A file has changed. -/
  | changed (name : Text)
  /-- The watcher had trouble. -/
  | trouble (message : Text)
  /-- There will be no more news of trouble. -/
  | troubleEnds
  /-- Nothing has come for long enough. -/
  | quiet
  deriving DecidableEq, Repr

/-- What a gatherer holds between two signals. -/
structure Gathering where
  /-- The names to report next, in the order they came in. -/
  pending : List Text
  /-- The names that have come since the last report, by which repeated ones are told. -/
  seen : List Text
  deriving DecidableEq, Repr

/-- Nothing gathered. -/
def Gathering.empty : Gathering := ⟨[], []⟩

/-- Takes one signal: what is gathered from then on, and a batch if one is reported now. -/
def gather (ext : Text) (g : Gathering) : Signal → Gathering × Option (List Text)
  | .changed name =>
    if Path.ext name != ext || g.seen.contains name then (g, none)
    else (⟨g.pending ++ [name], name :: g.seen⟩, none)
  | .trouble _ | .troubleEnds => (g, none)
  | .quiet => if g.pending.isEmpty then (g, none) else (⟨[], []⟩, some g.pending)

/-- The batches of a sequence of signals. -/
def batches (ext : Text) : Gathering → List Signal → List (List Text)
  | _, [] => []
  | g, signal :: rest =>
    match gather ext g signal with
    | (g, none) => batches ext g rest
    | (g, some batch) => batch :: batches ext g rest

/-! ## On a clock -/

/-- What is gathered, and when it is reported unless another change comes before. -/
structure Timer where
  gathering : Gathering
  due : Option Int
  deriving DecidableEq, Repr

namespace Timer

/-- Nothing gathered. -/
def idle : Timer := ⟨.empty, none⟩

/-- Lets time pass up to `now`; a batch that falls due before comes with its time. -/
def advance (ext : Text) (now : Int) (t : Timer) : Option (Int × List Text) × Timer :=
  match t.due with
  | none => (none, t)
  | some due =>
    if due < now then
      let (gathering, batch) := gather ext t.gathering .quiet
      (batch.map fun names => (due, names), ⟨gathering, none⟩)
    else (none, t)

/-- Takes a signal; every change that counts puts the report off. -/
def take (ext : Text) (delay now : Int) (signal : Signal) (t : Timer) : Timer :=
  let gathering := (gather ext t.gathering signal).1
  match signal with
  | .changed name =>
    if Path.ext name = ext then ⟨gathering, some (now + delay)⟩ else ⟨gathering, t.due⟩
  | _ => ⟨gathering, t.due⟩

end Timer

/-- The batches of signals on a timeline, with the times they are reported, until `stop`; what has
not been reported by then is lost. -/
def timedBatches (ext : Text) (delay stop : Int) :
    (t : Timer) → List (Int × Signal) → List (Int × List Text)
  | t, [] => (t.advance ext stop).1.toList
  | t, (now, signal) :: rest =>
    let (batch, t) := t.advance ext now
    batch.toList ++ timedBatches ext delay stop (t.take ext delay now signal) rest

end IndentedSass.Watch
