import IndentedSass.Proofs.Anew
import IndentedSass.Service.Sheets

/-!
# Overlapping requests

`Sheets.get` answers a request in one go. A service has many requests at a time, and each of them
reads files, asks for their times and uses the caches of the instance while the others do so, too,
and while files change. Here a request is cut into such single steps. It is a `Call`, which takes
*turns*, and a `System` runs through events: a call is made, a call takes a turn, or a file is
written.

A call first checks the files of a kept sheet one by one. If the sheet does not hold, it compiles a
new one, unless another call is at it for the same sheet; then it waits and gets that one's result.
The main result is `System.run_alone`: a call that is alone does what `Sheets.get` does.
-/

namespace IndentedSass.Service

/-! ## Calls -/

/-- What is to be made: what the sheet is kept under, its file, and the compiler. -/
structure Order where
  key : Text
  path : Text
  compiler : Compiler

/-- The order for a name and a style. -/
def Order.make (setup : SheetOptions) (name style : Text) : Except Fault Order :=
  let style := if style.isEmpty then setup.options.style else style
  match (Style.ofName? style).map (Sheets.compilerFor setup.options) with
  | none => .error (.invalid ("unknown style: " ++ style))
  | some (.error fault) => .error fault
  | some (.ok c) =>
    .ok ⟨Sheets.keyOf name style, Sheets.fileOf setup.options.templateLocation name, c⟩

theorem Order.path_make {setup : SheetOptions} {name style : Text} {order : Order}
    (h : Order.make setup name style = .ok order) :
    order.path = Sheets.fileOf setup.options.templateLocation name := by
  unfold Order.make at h
  dsimp only at h
  split at h
  · cases h
  · cases h
  · cases h
    rfl

/-- How far a compilation has got: the tree of the file itself, once it is loaded, the answers to
imports so far, and the loaded trees. -/
structure Draft where
  root : Option (Source × Text)
  answers : List Expand.Answer
  shelf : Shelf

/-- What a compilation does next. -/
inductive Phase where
  | resolve (uri file : Text)
  /-- Look for a remembered tree. -/
  | seek (p : Text)
  /-- Compare the time of a file with that of its remembered tree. -/
  | date (p : Text) (entry : CachedTree)
  /-- Forget the tree of a file. -/
  | drop (p : Text)
  | read (p : Text)
  /-- The style sheet is done, and the loaded trees are handed over to the library. -/
  | finish (css : Text)
  /-- Ask for the time of the first of the files whose trees are to be remembered. -/
  | commit (css : Text) (rest : List (Text × Source))
  | store (css p : Text) (entry : CachedTree) (rest : List (Text × Source))
  /-- Ask for the time of the next listed file. -/
  | stamp (css : Text) (times : List Int) (rest : List Text)
  | keep (sheet : Sheet)
  /-- Give the result to everyone who waits for it. -/
  | land (result : Except Fault (Nat × Sheet))

/-- Where a call stands. -/
inductive Stage where
  | called
  /-- Some files of a kept sheet are still to be checked against their times. -/
  | checking (order : Order) (entry : Nat × Sheet) (rest : List (Text × Int))
  | missed (order : Order)
  /-- Another call compiles the sheet. -/
  | waiting (order : Order) (leader : Nat)
  | compiling (order : Order) (draft : Draft) (phase : Phase)
  | ended (result : Except Fault (Nat × Sheet))

/-- A request and where it stands. -/
structure Call where
  name : Text
  style : Text
  stage : Stage

/-! ## Turns -/

namespace Draft

/-- What comes next once the file itself is loaded. -/
def next (draft : Draft) (c : Compiler) (source : Source) (p : Text) : Phase :=
  match Expand.outlook (c.script p source) draft.answers with
  | .asks (uri, file) => .resolve uri file
  | .ends (.error stop) => .land (.error stop.toFault)
  | .ends (.ok css) => .finish (c.style.render css)

section Next
variable {draft : Draft} {c : Compiler} {source : Source} {p : Text}

theorem next_of_asks {uri file : Text}
    (h : Expand.outlook (c.script p source) draft.answers = .asks (uri, file)) :
    draft.next c source p = .resolve uri file := by
  rw [next, h]

theorem next_of_error {stop : Expand.Stop}
    (h : Expand.outlook (c.script p source) draft.answers = .ends (.error stop)) :
    draft.next c source p = .land (.error stop.toFault) := by
  rw [next, h]

theorem next_of_ok {css : List Css}
    (h : Expand.outlook (c.script p source) draft.answers = .ends (.ok css)) :
    draft.next c source p = .finish (c.style.render css) := by
  rw [next, h]

end Next

/-- Takes the answer to what was asked last: the file itself, or an import. -/
def hear (draft : Draft) (c : Compiler) (answer : Expand.Answer) : Draft × Phase :=
  match draft.root, answer with
  | none, .error fault => (draft, .land (.error fault))
  | none, .ok (source, p) =>
    let draft := { draft with root := some (source, p) }
    (draft, draft.next c source p)
  | some (source, p), answer =>
    let draft := { draft with answers := draft.answers ++ [answer] }
    (draft, draft.next c source p)

/-- A target was not found. -/
def unresolved (draft : Draft) (c : Compiler) (uri : Text) (fault : Fault) : Draft × Phase :=
  draft.hear c (.error (if draft.root.isSome then .tagged ("import " ++ uri) fault else fault))

/-- A target was found; its file is loaded, unless it has been before. -/
def resolved (draft : Draft) (c : Compiler) (p : Text) : Draft × Phase :=
  match draft.shelf.pending.lookup p with
  | some source => draft.hear c (.ok (source, p))
  | none => (draft, if c.options.cache then .seek p else .read p)

/-- A file was loaded. -/
def loaded (draft : Draft) (c : Compiler) (p : Text) (tree : Except Fault Source) : Draft × Phase :=
  hear { draft with shelf := draft.shelf.note p tree } c (tree.map fun source => (source, p))

/-- The draft of a compilation that has not begun. -/
def new : Draft := ⟨none, [], .empty⟩

end Draft

/-- The sheets with another library. -/
def Sheets.withLibrary (m : Sheets) (library : Library) : Sheets := { m with library }

/-- The sheets with other kept ones. -/
def Sheets.withKept (m : Sheets) (kept : Recent Text (Nat × Sheet)) : Sheets := { m with kept }

/-- The next step of a compilation. -/
def Phase.turn (now : Text) (d : Disk) (order : Order) (draft : Draft) (m : Sheets) :
    Phase → (Draft × Phase) × Sheets
  | .resolve uri file =>
    match m.library.resolveCached d uri file with
    | (.error fault, library) =>
      (draft.unresolved order.compiler uri fault, m.withLibrary library)
    | (.ok p, library) => (draft.resolved order.compiler p, m.withLibrary library)
  | .seek p =>
    match m.library.trees.get? p with
    | (none, trees) => ((draft, .read p), m.withLibrary (m.library.withTrees trees))
    | (some entry, trees) => ((draft, .date p entry), m.withLibrary (m.library.withTrees trees))
  | .date p entry =>
    match m.library.modTime d p with
    | .ok time =>
      if time = entry.mtime then (draft.loaded order.compiler p (.ok entry.source), m)
      else ((draft, .drop p), m)
    | .error _ => ((draft, .drop p), m)
  | .drop p =>
    ((draft, .read p), m.withLibrary (m.library.withTrees (m.library.trees.erase p)))
  | .read p =>
    (draft.loaded order.compiler p (m.library.treeAt order.compiler.propertySyntax d p), m)
  | .finish css =>
    ((draft, .commit css (if order.compiler.options.cache then
      m.library.handOver.order draft.shelf.pending else [])), m)
  | .commit css [] => ((draft, .stamp css [] draft.shelf.files), m)
  | .commit css ((p, source) :: rest) =>
    match m.library.modTime d p with
    | .ok time => ((draft, .store css p ⟨source, time⟩ rest), m)
    | .error _ => ((draft, .commit css rest), m)
  | .store css p entry rest =>
    ((draft, .commit css rest), m.withLibrary (m.library.withTrees (m.library.trees.add p entry)))
  | .stamp css times [] =>
    ((draft, .keep ⟨css, order.compiler.options.style, draft.shelf.files, times, now⟩), m)
  | .stamp css times (file :: rest) =>
    match m.library.modTime d file with
    | .ok time => ((draft, .stamp css (times ++ [Sheets.nanoseconds time]) rest), m)
    | .error fault => ((draft, .land (.error (.tagged ("stat " ++ file) fault))), m)
  | .keep sheet =>
    let (entry, m) := m.keep order.key sheet
    ((draft, .land (.ok entry)), m)
  | .land result => ((draft, .land result), m)

/-- Whether a call compiles the sheet of a key. -/
def Call.compiles (key : Text) (call : Call) : Bool :=
  match call.stage with
  | .compiling order _ _ => order.key = key
  | _ => false

/-- The call that compiles the sheet of a key. -/
def leader? (calls : List Call) (key : Text) : Option Nat := calls.findIdx? (Call.compiles key)

/-- Whether a file has the time that was noted for it. -/
def Sheets.stillAt (m : Sheets) (d : Disk) (noted : Text × Int) : Bool :=
  match m.library.modTime d noted.1 with
  | .ok time => Sheets.nanoseconds time = noted.2
  | .error _ => false

/-- The next step of a call among others. -/
def Call.turn (calls : List Call) (now : Text) (d : Disk) (m : Sheets) (call : Call) :
    Stage × Sheets :=
  match call.stage with
  | .called =>
    match Order.make m.setup call.name call.style with
    | .error fault => (.ended (.error fault), m)
    | .ok order =>
      match m.kept.get? order.key with
      | (none, kept) => (.missed order, m.withKept kept)
      | (some entry, kept) =>
        if entry.2.files.length = entry.2.modTimes.length then
          (.checking order entry (entry.2.files.zip entry.2.modTimes), m.withKept kept)
        else (.missed order, m.withKept kept)
  | .checking _ entry [] => (.ended (.ok entry), m)
  | .checking order entry (noted :: rest) =>
    if m.stillAt d noted then (.checking order entry rest, m) else (.missed order, m)
  | .missed order =>
    match leader? calls order.key with
    | some i => (.waiting order i, m)
    | none => (.compiling order .new (.resolve order.path []), m)
  | .waiting order i =>
    match calls[i]? with
    | some ⟨_, _, .ended result⟩ => (.ended result, m)
    | _ => (.waiting order i, m)
  | .compiling _ _ (.land result) => (.ended result, m)
  | .compiling order draft phase =>
    let ((draft, phase), m) := phase.turn now d order draft m
    (.compiling order draft phase, m)
  | .ended result => (.ended result, m)

/-! ## Events -/

/-- An instance, its disk, and the calls that were made. -/
structure System where
  sheets : Sheets
  disk : Disk
  calls : List Call

inductive Event where
  | call (name style : Text)
  /-- A call takes a turn; `now` is the time stamp. -/
  | turn (i : Nat) (now : Text)
  | write (path : Text) (file : File)

namespace System

def step (s : System) : Event → System
  | .call name style => { s with calls := s.calls ++ [⟨name, style, .called⟩] }
  | .turn i now =>
    match s.calls[i]? with
    | none => s
    | some call =>
      let (stage, sheets) := call.turn s.calls now s.disk s.sheets
      { s with sheets, calls := s.calls.set i { call with stage } }
  | .write path file => { s with disk := s.disk.write path file }

def run (s : System) (events : List Event) : System := events.foldl step s

end System

/-! ## One compilation alone -/

section Works
open Relation (ReflTransGen)
variable {now : Text} {d : Disk} {order : Order} {draft : Draft} {m : Sheets} {css p : Text}
  {source : Source} {l : Compiler.Loader}

/-- A compilation goes on while nothing else happens. -/
def Works (now : Text) (d : Disk) (order : Order) :
    (Draft × Phase) × Sheets → (Draft × Phase) × Sheets → Prop :=
  ReflTransGen fun x y => x.1.2.turn now d order x.1.1 x.2 = y

theorem Works.trans {x y z : (Draft × Phase) × Sheets} (h : Works now d order x y)
    (h' : Works now d order y z) : Works now d order x z :=
  ReflTransGen.trans h h'

theorem Works.turn {phase : Phase} {x : (Draft × Phase) × Sheets}
    (h : phase.turn now d order draft m = x) : Works now d order ((draft, phase), m) x :=
  ReflTransGen.single h

/-! ### The end of a compilation -/

theorem works_commit_cons (rest : List (Text × Source)) :
    Works now d order ((draft, .commit css ((p, source) :: rest)), m)
      ((draft, .commit css rest), m.withLibrary (m.library.putCached d p source)) := by
  unfold Library.putCached
  cases htime : m.library.modTime d p with
  | ok time =>
    refine .trans (.turn (x := ((draft, .store css p ⟨source, time⟩ rest), m)) ?_) (.turn ?_)
    · unfold Phase.turn
      dsimp only
      rw [htime]
    · unfold Phase.turn
      rfl
  | error fault =>
    refine .turn ?_
    unfold Phase.turn
    dsimp only
    rw [htime]
    rfl

theorem works_commit (rest : List (Text × Source)) :
    Works now d order ((draft, .commit css rest), m) ((draft, .stamp css [] draft.shelf.files),
      m.withLibrary (rest.foldl (fun lib entry => lib.putCached d entry.1 entry.2) m.library)) := by
  induction rest generalizing m with
  | nil =>
    refine .turn ?_
    unfold Phase.turn
    rfl
  | cons first rest ih =>
    rw [List.foldl_cons]
    exact (works_commit_cons rest).trans ih

/-- The loaded trees come into the library, in the order in which it takes them. -/
theorem works_finish :
    Works now d order ((draft, .finish css), m) ((draft, .stamp css [] draft.shelf.files),
      m.withLibrary ((if order.compiler.options.cache then
          m.library.handOver.order draft.shelf.pending else []).foldl
        (fun lib entry => lib.putCached d entry.1 entry.2) m.library)) := by
  refine .trans (.turn ?_) (works_commit _)
  unfold Phase.turn
  rfl

theorem Sheets.timesOf_cons (m : Sheets) (d : Disk) (file : Text) (rest : List Text) :
    m.timesOf d (file :: rest) = match m.library.modTime d file with
      | .ok time => (m.timesOf d rest).map fun times => Sheets.nanoseconds time :: times
      | .error fault => .error (.tagged ("stat " ++ file) fault) := by
  rw [timesOf, List.mapM_cons]
  cases m.library.modTime d file with
  | error fault => rfl
  | ok time =>
    show (m.timesOf d rest >>= fun times => pure (Sheets.nanoseconds time :: times)) = _
    cases m.timesOf d rest <;> rfl

/-- What becomes of the times of the listed files. -/
def Order.stamped (order : Order) (now css : Text) (files : List Text) :
    Except Fault (List Int) → Phase
  | .ok times => .keep ⟨css, order.compiler.options.style, files, times, now⟩
  | .error fault => .land (.error fault)

theorem works_stamp (times : List Int) (rest : List Text) :
    Works now d order ((draft, .stamp css times rest), m)
      ((draft, order.stamped now css draft.shelf.files
        ((m.timesOf d rest).map fun more => times ++ more)), m) := by
  induction rest generalizing times with
  | nil =>
    refine .turn ?_
    unfold Phase.turn
    show _ = ((draft, Phase.keep ⟨css, _, _, times ++ [], now⟩), m)
    rw [List.append_nil]
  | cons file rest ih =>
    rw [Sheets.timesOf_cons]
    cases htime : m.library.modTime d file with
    | error fault =>
      refine .turn ?_
      unfold Phase.turn
      dsimp only
      rw [htime]
      rfl
    | ok time =>
      have hstamped := ih (times ++ [Sheets.nanoseconds time])
      have hassoc : ((m.timesOf d rest).map fun times => Sheets.nanoseconds time :: times).map
          (fun more => times ++ more) =
          (m.timesOf d rest).map fun more => times ++ [Sheets.nanoseconds time] ++ more := by
        cases m.timesOf d rest with
        | error fault => rfl
        | ok more => exact congrArg Except.ok (List.append_cons ..)
      rw [hassoc]
      refine .trans (.turn ?_) hstamped
      unfold Phase.turn
      dsimp only
      rw [htime]

/-! ### Loading -/

/-- A draft and its sheets stand for a loader over the disk. -/
structure StandsFor (d : Disk) (draft : Draft) (m : Sheets) (l : Compiler.Loader) : Prop where
  disk : l.world.disk = d
  library : l.world.library = m.library
  pending : l.pending = draft.shelf.pending
  files : l.files = draft.shelf.files

/-- The draft with the trees of a loader. -/
def Draft.withTrees (draft : Draft) (l : Compiler.Loader) : Draft :=
  { draft with shelf := ⟨l.pending, l.files⟩ }

theorem hear_note (hl : StandsFor d draft m l) (c : Compiler) (w : World)
    (tree : Except Fault Source) :
    (draft.withTrees (l.note p w tree).2).hear c
        ((l.note p w tree).1.map fun source => (source, p)) = draft.loaded c p tree := by
  rw [Draft.withTrees, Draft.loaded]
  cases tree with
  | ok source => rw [Compiler.Loader.note, Shelf.note, hl.pending, hl.files]
  | error fault => rw [Compiler.Loader.note, Shelf.note, hl.pending, hl.files]

theorem works_read :
    Works now d order ((draft, .read p), m)
      (draft.loaded order.compiler p (m.library.treeAt order.compiler.propertySyntax d p), m) := by
  refine .turn ?_
  unfold Phase.turn
  rfl

/-- Looking for a remembered tree step by step is looking for it: it is used, or else the file is
to be read. -/
theorem works_seek {found : Option Source} {lib : Library}
    (h : m.library.getCached d p = (found, lib)) :
    Works now d order ((draft, .seek p), m) (match found with
      | some source => draft.loaded order.compiler p (.ok source)
      | none => (draft, .read p), m.withLibrary lib) := by
  unfold Library.getCached at h
  rcases hget : m.library.trees.get? p with ⟨_ | entry, trees⟩ <;> rw [hget] at h
  · cases h
    refine .turn ?_
    unfold Phase.turn
    dsimp only
    rw [hget]
    rfl
  · have hseek : Works now d order ((draft, .seek p), m)
        ((draft, .date p entry), m.withLibrary (m.library.withTrees trees)) := by
      refine .turn ?_
      unfold Phase.turn
      dsimp only
      rw [hget]
    have htime : (m.withLibrary (m.library.withTrees trees)).library.modTime d p =
        m.library.modTime d p := rfl
    have hdrop : Works now d order ((draft, .drop p), m.withLibrary (m.library.withTrees trees))
        ((draft, .read p), m.withLibrary (m.library.withTrees (trees.erase p))) := by
      refine .turn ?_
      unfold Phase.turn
      rfl
    refine hseek.trans ?_
    cases hmod : m.library.modTime d p with
    | error fault =>
      rw [hmod] at h htime
      cases h
      refine .trans (.turn ?_) hdrop
      unfold Phase.turn
      dsimp only
      rw [htime]
    | ok time =>
      rw [hmod] at h htime
      dsimp only at h
      split at h
      · rename_i hsame
        cases h
        refine .turn ?_
        unfold Phase.turn
        dsimp only
        rw [htime]
        dsimp only
        rw [if_pos hsame]
        rfl
      · rename_i hother
        cases h
        refine .trans (.turn ?_) hdrop
        unfold Phase.turn
        dsimp only
        rw [htime]
        dsimp only
        rw [if_neg hother]

/-- **Loading a file** step by step is loading it. -/
theorem works_resolved (hl : StandsFor d draft m l) (p : Text) :
    Works now d order (draft.resolved order.compiler p, m)
      ((draft.withTrees (order.compiler.load p l).2).hear order.compiler
          ((order.compiler.load p l).1.map fun source => (source, p)),
        m.withLibrary (order.compiler.load p l).2.world.library) := by
  cases hpending : draft.shelf.pending.lookup p with
  | some source =>
    have hload : order.compiler.load p l = (.ok source, l) := by
      rw [Compiler.load, hl.pending, hpending]
    have hdraft : draft.withTrees l = draft := by rw [Draft.withTrees, hl.pending, hl.files]
    rw [Draft.resolved, hpending, hload, hdraft, hl.library]
    exact .refl
  | none =>
    have hnone : l.pending.lookup p = none := by rw [hl.pending, hpending]
    rw [Draft.resolved, hpending]
    dsimp only
    by_cases hcache : order.compiler.options.cache = true
    · rcases hget : m.library.getCached d p with ⟨found, lib⟩
      have hcached : order.compiler.cachedTree l.world p = (found, ⟨d, lib, l.world.reads⟩) := by
        rw [Compiler.cachedTree, if_pos hcache, hl.library, hl.disk, hget]
      have hseek := @works_seek now d order draft m p found lib hget
      rw [if_pos hcache]
      cases found with
      | some source =>
        rw [Compiler.load_of_some hnone hcached, hear_note hl, Compiler.Loader.world_note]
        exact hseek
      | none =>
        rw [Compiler.load_of_none hnone hcached, hear_note hl, Compiler.Loader.world_note]
        exact hseek.trans works_read
    · have hcached : order.compiler.cachedTree l.world p = (none, l.world) := by
        rw [Compiler.cachedTree, if_neg hcache]
      rw [if_neg hcache, Compiler.load_of_none hnone hcached, hear_note hl,
        Compiler.Loader.world_note, hl.disk,
        show (l.world.read p).2.library = l.world.library from rfl, hl.library]
      exact works_read

theorem works_resolve {uri file : Text} {lib : Library}
    (h : m.library.resolveCached d uri file = (.ok p, lib)) :
    Works now d order ((draft, .resolve uri file), m)
      (draft.resolved order.compiler p, m.withLibrary lib) := by
  refine .turn ?_
  unfold Phase.turn
  dsimp only
  rw [h]

theorem works_unresolved {uri file : Text} {lib : Library} {fault : Fault}
    (h : m.library.resolveCached d uri file = (.error fault, lib)) :
    Works now d order ((draft, .resolve uri file), m)
      (draft.unresolved order.compiler uri fault, m.withLibrary lib) := by
  refine .turn ?_
  unfold Phase.turn
  dsimp only
  rw [h]

/-- **Loading an import** step by step is loading it. -/
theorem works_import (hl : StandsFor d draft m l) (hroot : draft.root.isSome = true)
    (uri file : Text) :
    Works now d order ((draft, .resolve uri file), m)
      ((draft.withTrees (order.compiler.loadImport uri file l).2).hear order.compiler
          (order.compiler.loadImport uri file l).1,
        m.withLibrary (order.compiler.loadImport uri file l).2.world.library) := by
  rcases hresolve : m.library.resolveCached d uri file with ⟨target, lib⟩
  have hworld : l.world.resolve uri file = (target, ⟨d, lib, l.world.reads⟩) := by
    rw [World.resolve, hl.library, hl.disk, hresolve]
  have hl' : StandsFor d draft (m.withLibrary lib) ⟨⟨d, lib, l.world.reads⟩, l.pending, l.files⟩ :=
    ⟨rfl, rfl, hl.pending, hl.files⟩
  cases target with
  | error fault =>
    have hdraft : draft.withTrees ⟨⟨d, lib, l.world.reads⟩, l.pending, l.files⟩ = draft := by
      rw [Draft.withTrees, hl.pending, hl.files]
    have hturn := @works_unresolved now d order draft m uri file lib fault hresolve
    rw [Draft.unresolved, if_pos hroot] at hturn
    rw [Compiler.loadImport, hworld]
    dsimp only
    rw [hdraft]
    exact hturn
  | ok p =>
    rw [Compiler.loadImport_of_ok hworld]
    exact (works_resolve hresolve).trans (works_resolved hl' p)

/-! ### Expanding -/

/-- The draft of a compilation that has loaded its own file and got some answers. -/
def draftOf (root : Source × Text) (x : List Expand.Answer × Compiler.Loader) : Draft :=
  ⟨some root, x.1, ⟨x.2.pending, x.2.files⟩⟩

/-- **Having a conversation** step by step is having it. -/
theorem works_conversation {x y : List Expand.Answer × Compiler.Loader}
    (h : Expand.Conversation (Expand.outlook (order.compiler.script p source))
      order.compiler.importer x y) (hdisk : x.2.world.disk = d) (m : Sheets) :
    y.2.world.disk = d ∧ Works now d order
      ((draftOf (source, p) x, (draftOf (source, p) x).next order.compiler source p),
        m.withLibrary x.2.world.library)
      ((draftOf (source, p) y, (draftOf (source, p) y).next order.compiler source p),
        m.withLibrary y.2.world.library) := by
  induction h with
  | refl => exact ⟨hdisk, .refl⟩
  | tail _ hlast ih =>
    obtain @⟨answers, uri, file, l, l', answer, asks, load⟩ := hlast
    obtain ⟨hdisk', hworks⟩ := ih
    have hnext : (draftOf (source, p) (answers, l)).next order.compiler source p =
        .resolve uri file := Draft.next_of_asks asks
    have hl : StandsFor d (draftOf (source, p) (answers, l)) (m.withLibrary l.world.library) l :=
      ⟨hdisk', rfl, rfl, rfl⟩
    have himport := @works_import now d order _ _ _ hl rfl uri file
    have hload : order.compiler.loadImport uri file l = (answer, l') := load
    have hloaded := Compiler.disk_loadImport order.compiler uri file l
    rw [hload] at himport hloaded
    rw [hnext] at hworks
    exact ⟨hloaded.trans hdisk', hworks.trans himport⟩

/-! ### Compiling -/

/-- The result of a compilation when its sheet, if there is one, has been kept. -/
def Order.made (order : Order) : Except Fault Sheet × Sheets → Except Fault (Nat × Sheet) × Sheets
  | (.ok sheet, m) => (.ok (m.keep order.key sheet).1, (m.keep order.key sheet).2)
  | (.error fault, m) => (.error fault, m)

/-- A compilation comes to a result, while nothing else happens. -/
def Lands (now : Text) (d : Disk) (order : Order) (x : (Draft × Phase) × Sheets)
    (result : Except Fault (Nat × Sheet) × Sheets) : Prop :=
  ∃ draft, Works now d order x ((draft, .land result.1), result.2)

theorem Works.lands {x y : (Draft × Phase) × Sheets} {result : Except Fault (Nat × Sheet) × Sheets}
    (h : Works now d order x y) (hy : Lands now d order y result) : Lands now d order x result := by
  obtain ⟨draft, hland⟩ := hy
  exact ⟨draft, h.trans hland⟩

/-- Times are taken, and the sheet is kept. -/
theorem lands_stamp (times : List Int) (rest : List Text) :
    Lands now d order ((draft, .stamp css times rest), m)
      (order.made ((m.timesOf d rest).map fun more =>
        ⟨css, order.compiler.options.style, draft.shelf.files, times ++ more, now⟩, m)) := by
  refine (works_stamp times rest).lands ⟨draft, ?_⟩
  cases m.timesOf d rest with
  | error fault => exact .refl
  | ok more =>
    refine .turn ?_
    unfold Phase.turn
    rfl

/-- What `Sheets.compile` makes of a compiled file. -/
theorem compile_of_compileFile {name : Text} {compiled : Compiler.Compiled} {w : World}
    (hpath : order.path = Sheets.fileOf m.setup.options.templateLocation name)
    (h : order.compiler.compileFile order.path ⟨d, m.library, []⟩ = (compiled, w)) :
    m.compile order.compiler name ⟨d, none, now⟩ = (match compiled.css with
      | .error stop => .error stop.toFault
      | .ok css => ((m.withLibrary w.library).timesOf d compiled.files).map fun times =>
          ⟨css, order.compiler.options.style, compiled.files, times, now⟩,
      m.withLibrary w.library) := by
  rw [Sheets.compile, ← hpath]
  dsimp only
  rw [h]
  dsimp only
  rw [show ({ m with library := w.library } : Sheets) = m.withLibrary w.library from rfl]
  cases compiled.css with
  | error stop => rfl
  | ok css =>
    dsimp only
    cases (m.withLibrary w.library).timesOf d compiled.files <;> rfl

/-- Where a compilation stands when its style sheet is done, or has failed. -/
def Phase.ofCss (files : List Text) : Except Expand.Stop Text → Phase
  | .ok css => .stamp css [] files
  | .error stop => .land (.error stop.toFault)

/-- **Compiling a file** step by step is compiling it. -/
theorem works_compileFile {reads : List Text} {compiled : Compiler.Compiled} {w : World}
    (h : order.compiler.compileFile order.path ⟨d, m.library, reads⟩ = (compiled, w)) :
    w.disk = d ∧ ∃ draft, draft.shelf.files = compiled.files ∧
      Works now d order ((.new, .resolve order.path []), m)
        ((draft, .ofCss compiled.files compiled.css), m.withLibrary w.library) := by
  rcases hresolve : m.library.resolveCached d order.path [] with ⟨target, lib⟩
  have hworld : World.resolve ⟨d, m.library, reads⟩ order.path [] = (target, ⟨d, lib, reads⟩) := by
    rw [World.resolve, hresolve]
  rw [Compiler.compileFile, hworld] at h
  cases target with
  | error fault =>
    cases h
    exact ⟨rfl, .new, rfl, works_unresolved hresolve⟩
  | ok p =>
    have hstart : StandsFor d .new (m.withLibrary lib) (.start ⟨d, lib, reads⟩) :=
      ⟨rfl, rfl, rfl, rfl⟩
    have hbegin := (works_resolve hresolve).trans (@works_resolved now d order _ _ _ hstart p)
    have hdisk := Compiler.disk_load order.compiler p (.start ⟨d, lib, reads⟩)
    dsimp only at h
    rcases htree : order.compiler.load p (.start ⟨d, lib, reads⟩) with ⟨tree, l⟩
    rw [htree] at h hdisk hbegin
    cases tree with
    | error fault =>
      cases h
      exact ⟨hdisk, _, rfl, hbegin⟩
    | ok source =>
      have hconverses := order.compiler.source_converses p source
      obtain ⟨answers, l', result, hconversation, hends⟩ := hconverses.exists_end l
      have hrun := hconverses.run_eq hconversation hends
      obtain ⟨hdisk', hworks⟩ := @works_conversation now d order p source _ _ hconversation hdisk m
      replace hworks := hbegin.trans hworks
      dsimp only at h hdisk'
      rw [Compiler.render, hrun] at h
      cases result with
      | error stop =>
        cases h
        have hnext : (draftOf (source, p) (answers, l')).next order.compiler source p = _ :=
          Draft.next_of_error hends
        rw [hnext] at hworks
        exact ⟨hdisk', _, rfl, hworks⟩
      | ok css =>
        cases h
        have hnext : (draftOf (source, p) (answers, l')).next order.compiler source p = _ :=
          Draft.next_of_ok hends
        rw [hnext] at hworks
        dsimp only
        rw [Compiler.disk_commit, Compiler.library_commit, hdisk']
        exact ⟨rfl, _, rfl, hworks.trans works_finish⟩

/-- **Compiling a sheet** step by step is compiling it. -/
theorem lands_compile {name : Text}
    (hpath : order.path = Sheets.fileOf m.setup.options.templateLocation name) :
    Lands now d order ((.new, .resolve order.path []), m)
      (order.made (m.compile order.compiler name ⟨d, none, now⟩)) := by
  rcases hcompile : order.compiler.compileFile order.path ⟨d, m.library, []⟩ with ⟨⟨css, files⟩, w⟩
  obtain ⟨-, draft, rfl, hworks⟩ := @works_compileFile now d order m _ _ _ hcompile
  rw [compile_of_compileFile hpath hcompile]
  cases css with
  | error stop => exact ⟨draft, hworks⟩
  | ok css => exact hworks.lands (lands_stamp [] draft.shelf.files)

end Works

/-! ## One call alone -/

namespace System
open Relation (ReflTransGen)
variable {s s' : System} {i : Nat} {now name style : Text} {order : Order} {m : Sheets}

/-- The system with one call and the sheets replaced. -/
def put (s : System) (i : Nat) (call : Call) (m : Sheets) : System :=
  { s with sheets := m, calls := s.calls.set i call }

theorem put_put (s : System) (i : Nat) (call call' : Call) (m m' : Sheets) :
    (s.put i call m).put i call' m' = s.put i call' m' := by
  simp only [put, List.set_set]

theorem getElem?_put (hi : i < s.calls.length) (call : Call) (m : Sheets) :
    (s.put i call m).calls[i]? = some call :=
  List.getElem?_set_self hi

theorem step_turn {call : Call} (h : s.calls[i]? = some call) (now : Text) :
    s.step (.turn i now) = s.put i { call with stage := (call.turn s.calls now s.disk s.sheets).1 }
      (call.turn s.calls now s.disk s.sheets).2 := by
  rw [step, h]
  rfl

/-- One call takes turns, and nothing else happens. -/
def Alone (i : Nat) (now : Text) : System → System → Prop :=
  ReflTransGen fun s s' => s.step (.turn i now) = s'

theorem Alone.trans {s'' : System} (h : Alone i now s s') (h' : Alone i now s' s'') :
    Alone i now s s'' :=
  ReflTransGen.trans h h'

theorem Alone.exists_run (h : Alone i now s s') :
    ∃ n, s.run (List.replicate n (.turn i now)) = s' := by
  induction h with
  | refl => exact ⟨0, rfl⟩
  | tail _ hlast ih =>
    obtain ⟨n, hn⟩ := ih
    refine ⟨n + 1, ?_⟩
    rw [List.replicate_succ', run, List.foldl_append]
    exact (congrArg (fun s => s.step (.turn i now)) hn).trans hlast

/-- A turn of a call that has been put in its place. -/
theorem alone_turn (hi : i < s.calls.length) {call : Call} {stage : Stage} {m' : Sheets}
    (h : call.turn (s.put i call m).calls now s.disk m = (stage, m')) :
    Alone i now (s.put i call m) (s.put i { call with stage } m') := by
  refine ReflTransGen.single ?_
  rw [step_turn (getElem?_put hi call m)]
  show (s.put i call m).put i { call with stage := (call.turn _ now s.disk m).1 }
    (call.turn _ now s.disk m).2 = _
  rw [h, put_put]

theorem turn_compiling {calls : List Call} {d : Disk} {draft : Draft} {phase : Phase}
    (h : ∀ result, phase ≠ .land result) :
    Call.turn calls now d m ⟨name, style, .compiling order draft phase⟩ =
      (.compiling order (phase.turn now d order draft m).1.1 (phase.turn now d order draft m).1.2,
        (phase.turn now d order draft m).2) := by
  unfold Call.turn
  cases phase with
  | land result => exact absurd rfl (h result)
  | resolve | seek | date | drop | read | finish | commit | store | stamp | keep => rfl

theorem alone_of_works (hi : i < s.calls.length) {x y : (Draft × Phase) × Sheets}
    (h : Works now s.disk order x y) :
    Alone i now (s.put i ⟨name, style, .compiling order x.1.1 x.1.2⟩ x.2)
      (s.put i ⟨name, style, .compiling order y.1.1 y.1.2⟩ y.2) := by
  induction h with
  | refl => exact .refl
  | @tail y z _ hlast ih =>
    refine ih.trans ?_
    subst hlast
    obtain ⟨⟨draft, phase⟩, m⟩ := y
    by_cases hland : ∃ result, phase = .land result
    · obtain ⟨result, rfl⟩ := hland
      exact .refl
    · exact alone_turn hi (turn_compiling fun result h => hland ⟨result, h⟩)

theorem alone_of_lands (hi : i < s.calls.length) {draft : Draft} {phase : Phase}
    {result : Except Fault (Nat × Sheet) × Sheets}
    (h : Lands now s.disk order ((draft, phase), m) result) :
    Alone i now (s.put i ⟨name, style, .compiling order draft phase⟩ m)
      (s.put i ⟨name, style, .ended result.1⟩ result.2) := by
  obtain ⟨draft', hworks⟩ := h
  exact (alone_of_works hi hworks).trans (alone_turn hi rfl)

theorem alone_check (hi : i < s.calls.length) (entry : Nat × Sheet) (rest : List (Text × Int)) :
    Alone i now (s.put i ⟨name, style, .checking order entry rest⟩ m)
      (s.put i ⟨name, style, if rest.all (m.stillAt s.disk) then .ended (.ok entry)
        else .missed order⟩ m) := by
  induction rest with
  | nil => exact alone_turn hi rfl
  | cons noted rest ih =>
    rw [List.all_cons]
    cases hnoted : m.stillAt s.disk noted with
    | true =>
      rw [Bool.true_and]
      refine (alone_turn hi ?_).trans ih
      unfold Call.turn
      dsimp only
      rw [if_pos hnoted]
    | false =>
      refine alone_turn hi ?_
      unfold Call.turn
      dsimp only
      rw [hnoted]
      rfl

end System

namespace Sheets
variable {m : Sheets} {d : Disk} {name style now : Text} {order : Order}

theorem isFresh_eq (m : Sheets) (d : Disk) (sheet : Sheet) :
    m.isFresh d sheet = (decide (sheet.files.length = sheet.modTimes.length) &&
      (sheet.files.zip sheet.modTimes).all (m.stillAt d)) := by
  unfold isFresh
  congr 1

theorem get_of_error {fault : Fault} (h : Order.make m.setup name style = .error fault)
    (around : Surroundings) : m.get name style around = (.error fault, m, around) := by
  unfold Order.make at h
  unfold get
  dsimp only at h ⊢
  generalize (if style.isEmpty then m.setup.options.style else style) = style at h ⊢
  generalize (Style.ofName? style).map (compilerFor m.setup.options) = c at h ⊢
  match c, h with
  | none, rfl => rfl
  | some (.error _), rfl => rfl

/-- A kept sheet that holds is served again. -/
theorem get_of_fresh {entry : Nat × Sheet} {kept : Recent Text (Nat × Sheet)}
    (h : Order.make m.setup name style = .ok order)
    (hfound : m.kept.get? order.key = (some entry, kept))
    (hfresh : (m.withKept kept).isFresh d entry.2 = true) :
    m.get name style ⟨d, none, now⟩ = (.ok entry, m.withKept kept, ⟨d, none, now⟩) := by
  have hsome : (some entry).filter (fun entry => (m.withKept kept).isFresh d entry.2) =
      some entry :=
    Option.filter_some_pos hfresh
  unfold Order.make at h
  unfold get
  dsimp only at h ⊢
  generalize (if style.isEmpty then m.setup.options.style else style) = style at h ⊢
  generalize (Style.ofName? style).map (compilerFor m.setup.options) = c at h ⊢
  match c, h with
  | some (.ok c), rfl =>
    dsimp only at hfound ⊢
    rw [hfound]
    dsimp only
    rw [show ({ m with kept := kept } : Sheets) = m.withKept kept from rfl, hsome]

/-- Without a kept sheet that holds a new one is made. -/
theorem get_of_stale {found : Option (Nat × Sheet)} {kept : Recent Text (Nat × Sheet)}
    (h : Order.make m.setup name style = .ok order)
    (hfound : m.kept.get? order.key = (found, kept))
    (hstale : ∀ entry, found = some entry → (m.withKept kept).isFresh d entry.2 = false) :
    m.get name style ⟨d, none, now⟩ =
      ((order.made ((m.withKept kept).compile order.compiler name ⟨d, none, now⟩)).1,
        (order.made ((m.withKept kept).compile order.compiler name ⟨d, none, now⟩)).2,
        ⟨d, none, now⟩) := by
  have hnone : found.filter (fun entry => (m.withKept kept).isFresh d entry.2) = none :=
    Option.filter_eq_none_iff.mpr fun entry hentry => by rw [hstale entry hentry]; nofun
  unfold Order.make at h
  unfold get
  dsimp only at h ⊢
  generalize (if style.isEmpty then m.setup.options.style else style) = style at h ⊢
  generalize (Style.ofName? style).map (compilerFor m.setup.options) = c at h ⊢
  match c, h with
  | some (.ok c), rfl =>
    dsimp only at hfound ⊢
    rw [hfound]
    dsimp only
    rw [show ({ m with kept := kept } : Sheets) = m.withKept kept from rfl, hnone]
    rw [show (m.withKept kept).shared? ⟨d, none, now⟩ (keyOf name style) = none from rfl]
    dsimp only
    rcases (m.withKept kept).compile c name ⟨d, none, now⟩ with ⟨_ | sheet, m'⟩
    · rfl
    · dsimp only [Order.made]
      congr 2
      unfold share
      split <;> rfl

end Sheets

namespace System
variable {s : System} {i : Nat} {now name style : Text} {order : Order} {m : Sheets}

theorem turn_called_error {calls : List Call} {d : Disk} {fault : Fault}
    (h : Order.make m.setup name style = .error fault) :
    Call.turn calls now d m ⟨name, style, .called⟩ = (.ended (.error fault), m) := by
  unfold Call.turn
  dsimp only
  rw [h]

theorem turn_called_none {calls : List Call} {d : Disk} {kept : Recent Text (Nat × Sheet)}
    (h : Order.make m.setup name style = .ok order)
    (hfound : m.kept.get? order.key = (none, kept)) :
    Call.turn calls now d m ⟨name, style, .called⟩ = (.missed order, m.withKept kept) := by
  unfold Call.turn
  dsimp only
  rw [h]
  dsimp only
  rw [hfound]

theorem turn_called_some {calls : List Call} {d : Disk} {kept : Recent Text (Nat × Sheet)}
    {entry : Nat × Sheet} (h : Order.make m.setup name style = .ok order)
    (hfound : m.kept.get? order.key = (some entry, kept)) :
    Call.turn calls now d m ⟨name, style, .called⟩ =
      (if entry.2.files.length = entry.2.modTimes.length then
          .checking order entry (entry.2.files.zip entry.2.modTimes)
        else .missed order, m.withKept kept) := by
  unfold Call.turn
  dsimp only
  rw [h]
  dsimp only
  rw [hfound]
  dsimp only
  split <;> rfl

theorem leader?_put (hidle : ∀ call ∈ s.calls, ∀ key, call.compiles key = false) (key : Text) :
    leader? (s.put i ⟨name, style, .missed order⟩ m).calls key = none := by
  refine List.findIdx?_eq_none_iff.mpr fun call hcall => ?_
  rcases List.mem_or_eq_of_mem_set hcall with hcall | rfl
  · exact hidle call hcall key
  · rfl

/-- A call that has found no sheet makes one. -/
theorem alone_missed (hi : i < s.calls.length)
    (hidle : ∀ call ∈ s.calls, ∀ key, call.compiles key = false)
    (horder : Order.make m.setup name style = .ok order) :
    Alone i now (s.put i ⟨name, style, .missed order⟩ m)
      (s.put i ⟨name, style, .ended
        (order.made (m.compile order.compiler name ⟨s.disk, none, now⟩)).1⟩
        (order.made (m.compile order.compiler name ⟨s.disk, none, now⟩)).2) := by
  refine (alone_turn hi ?_).trans (alone_of_lands hi (lands_compile (Order.path_make horder)))
  unfold Call.turn
  dsimp only
  rw [leader?_put hidle]

theorem alone_get (hi : i < s.calls.length)
    (hidle : ∀ call ∈ s.calls, ∀ key, call.compiles key = false) (now : Text) (m : Sheets) :
    Alone i now (s.put i ⟨name, style, .called⟩ m)
      (s.put i ⟨name, style, .ended (m.get name style ⟨s.disk, none, now⟩).1⟩
        (m.get name style ⟨s.disk, none, now⟩).2.1) := by
  cases horder : Order.make m.setup name style with
  | error fault =>
    rw [Sheets.get_of_error horder]
    exact alone_turn hi (turn_called_error horder)
  | ok order =>
    rcases hfound : m.kept.get? order.key with ⟨_ | entry, kept⟩
    · rw [Sheets.get_of_stale horder hfound fun _ h => by cases h]
      exact (alone_turn hi (turn_called_none horder hfound)).trans (alone_missed hi hidle horder)
    · have hcalled := @alone_turn s i now m hi ⟨name, style, .called⟩ _ _
        (turn_called_some horder hfound)
      by_cases hlength : entry.2.files.length = entry.2.modTimes.length
      · rw [if_pos hlength] at hcalled
        have hcheck := @alone_check s i now name style order (m.withKept kept) hi entry
          (entry.2.files.zip entry.2.modTimes)
        have hfresh := (m.withKept kept).isFresh_eq s.disk entry.2
        rw [decide_eq_true hlength, Bool.true_and] at hfresh
        rw [← hfresh] at hcheck
        by_cases hholds : (m.withKept kept).isFresh s.disk entry.2 = true
        · rw [if_pos hholds] at hcheck
          rw [Sheets.get_of_fresh horder hfound hholds]
          exact hcalled.trans hcheck
        · rw [if_neg hholds] at hcheck
          have hstale : ∀ entry', some entry = some entry' →
              (m.withKept kept).isFresh s.disk entry'.2 = false := by
            rintro _ ⟨⟩
            exact Bool.eq_false_iff.mpr hholds
          rw [Sheets.get_of_stale horder hfound hstale]
          exact (hcalled.trans hcheck).trans (alone_missed hi hidle horder)
      · rw [if_neg hlength] at hcalled
        have hstale : ∀ entry', some entry = some entry' →
            (m.withKept kept).isFresh s.disk entry'.2 = false := by
          rintro _ ⟨⟩
          rw [Sheets.isFresh_eq, decide_eq_false hlength, Bool.false_and]
        rw [Sheets.get_of_stale horder hfound hstale]
        exact hcalled.trans (alone_missed hi hidle horder)

/-- **Taking turns alone is `Sheets.get`.** A call that is made while no other one compiles and that
takes turns until it ends gives the sheet of `Sheets.get`, and leaves the instance as that does. -/
theorem run_alone (hidle : ∀ call ∈ s.calls, ∀ key, call.compiles key = false)
    (name style now : Text) : ∃ n,
    s.run (.call name style :: List.replicate n (.turn s.calls.length now)) =
      ⟨(s.sheets.get name style ⟨s.disk, none, now⟩).2.1, s.disk, s.calls ++
        [⟨name, style, .ended (s.sheets.get name style ⟨s.disk, none, now⟩).1⟩]⟩ := by
  have hset (call : Call) :
      (s.calls ++ [(⟨name, style, .called⟩ : Call)]).set s.calls.length call =
        s.calls ++ [call] := by
    rw [List.set_append_right _ _ (Nat.le_refl _), Nat.sub_self, List.set_cons_zero]
  have hlength : s.calls.length < (s.step (.call name style)).calls.length := by
    rw [step, List.length_append]
    exact Nat.lt_succ_self _
  have hidle' : ∀ call ∈ (s.step (.call name style)).calls, ∀ key, call.compiles key = false :=
    List.forall_mem_append.mpr ⟨hidle, List.forall_mem_singleton.mpr fun _ => rfl⟩
  have hstart : (s.step (.call name style)).put s.calls.length ⟨name, style, .called⟩ s.sheets =
      s.step (.call name style) := by
    rw [put, step, hset]
  obtain ⟨n, hrun⟩ := (@alone_get _ _ name style hlength hidle' now s.sheets).exists_run
  rw [hstart] at hrun
  refine ⟨n, hrun.trans ?_⟩
  rw [put, step, hset]

end System

end IndentedSass.Service
