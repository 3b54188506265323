import IndentedSass.Proofs.OutputPlaces
import IndentedSass.Proofs.Undisturbed

/-!
# Builds with several tasks at a time

`Tool.build` compiles one file after the other. A build may also work on several files at a time.
They share the library of the compiler, and the style sheets of some are written while others are
compiled. Here a build is a `Shop`: every file is a task, which takes its turns in any order with
those of the others, while at most `concurrency` tasks have been begun and not ended. Turns of a
compilation are those of `Service.Phase.turn`.

What a task can do in a turn is listed in `Task.Moves`. Every run keeps the shop sound
(`Shop.sound_run`): each task is as far as it would be on its own, and what stands at the output
paths is what the tasks have written. Some task can take a turn as long as not all have ended
(`Shop.exists_turn`), and no run goes on for ever (`Shop.Sound.exists_stuck`).
-/

namespace IndentedSass

/-! ## Machines that follow -/

namespace Machine
variable {o : LibraryOptions} {c : Compiler} {m m' : Machine} {src : Text}

/-- The machine with another library. -/
def withLibrary (m : Machine) (library : Library) : Machine :=
  { m with world := { m.world with library } }

/-- The library of a program that has just been started. -/
def newLibrary (m : Machine) (o : LibraryOptions) (choices : Library.Choices) : Library :=
  (Library.onMachine o m.workDir).choosing choices

/-- A machine on which the program has just been started. -/
structure Fresh (o : LibraryOptions) (m : Machine) : Prop where
  isNative : m.disk.isNative = true
  library : ∃ choices, m.world.library = m.newLibrary o choices

/-- A later state of a machine with a library that is right about the beginning. -/
structure Follows (c : Compiler) (m m' : Machine) : Prop where
  later : m.Later m'
  memory : m'.world.library.Right c.propertySyntax m.world.library [m.disk] m.disk

namespace Fresh

/-- Whatever the library will choose, its paths are those of the machine. -/
theorem rooted (h : m.Fresh o) : m.world.library.Rooted := by
  obtain ⟨choices, hlibrary⟩ := h.library
  rw [hlibrary]
  exact (Library.rooted_onMachine o m.workDir).choosing choices

/-- No file of a machine has a path with a zero byte. -/
theorem isClear (h : m.Fresh o) : m.disk.IsClear := by
  intro path hpath
  have hnames := ((m.disk.isFile_iff path).mp hpath).1
  rw [h.isNative] at hnames
  simp only [Bool.true_and, Bool.and_eq_true, Bool.not_eq_true', List.any_eq_false] at hnames
  exact fun hzero => hnames.2 0 hzero rfl

theorem right (h : m.Fresh o) (c : Compiler) :
    m.world.library.Right c.propertySyntax m.world.library [m.disk] m.disk := by
  obtain ⟨choices, hlibrary⟩ := h.library
  rw [hlibrary]
  exact Library.right_of_empty rfl rfl

theorem follows (h : m.Fresh o) (c : Compiler) : Follows c m m := ⟨.refl m, h.right c⟩

end Fresh

/-- **Compiling on a machine that follows is compiling anew at the beginning.** It leaves the disk
alone, and the machine follows on. -/
theorem compile_eq_anew (hfresh : m.Fresh o) (h : Follows c m m') (src : Text) :
    (compile c src m').1.1 = (c.compileAnew m.world.library m.disk src).css.mapError
        Expand.Stop.toFault ∧
      Follows c m (compile c src m').2 ∧ (compile c src m').2.disk = m'.disk := by
  rcases hcompile : c.compileFile src ⟨m'.disk, m'.world.library, m'.world.reads⟩ with ⟨compiled, w⟩
  obtain ⟨hcss, hdisk, hmemory⟩ := Compiler.compileFile_eq_beginning hfresh.rooted hfresh.isClear
    h.later.sources h.memory hcompile
  have hworld : compile c src m' =
      ((compiled.css.mapError Expand.Stop.toFault, compiled.files), { m' with world := w }) := by
    rw [compile]
    rw [show m'.world = ⟨m'.disk, m'.world.library, m'.world.reads⟩ from rfl, hcompile]
  rw [hworld]
  refine ⟨hcss, ⟨⟨h.later.workDir, ?_⟩, hmemory⟩, hdisk⟩
  show m.disk.SameSources w.disk
  rw [hdisk]
  exact h.later.sources

/-- **A file compiles to the same all the time.** -/
theorem Follows.css_eq (hfresh : m.Fresh o) (h : Follows c m m') (src : Text) :
    (compile c src m').1.1 = (compile c src m).1.1 := by
  rw [(compile_eq_anew hfresh h src).1, (compile_eq_anew hfresh (hfresh.follows c) src).1]

end Machine

/-! ## Shops -/

namespace Tool
open Machine

/-- How a build is done. -/
structure Plan where
  compiler : Compiler
  outDir : Text
  concurrency : Int

namespace Plan

def output (plan : Plan) (src : Text) : Text := outputPath src plan.outDir

/-- What a task has to compile. -/
def order (plan : Plan) (src : Text) : Service.Order := ⟨[], src, plan.compiler⟩

/-- The library as that of an instance that has no sheets. -/
def bench (plan : Plan) (library : Library) : Service.Sheets :=
  ⟨⟨plan.compiler.options, 0, 0, 0⟩, library, .empty 0, 0⟩

/-- The style sheet of a file. -/
def sheet (plan : Plan) (m : Machine) (src : Text) : Except Fault Text :=
  (compile plan.compiler src m).1.1

/-- The fault of a file: it does not compile, or its style sheet cannot be written. -/
def fault? (plan : Plan) (m : Machine) (src : Text) : Option Fault :=
  match plan.sheet m src with
  | .error fault => some (.tagged src fault)
  | .ok css =>
    match write (plan.output src) css m with
    | .error r => some (.tagged ("write " ++ plan.output src) r.fault)
    | .ok _ => none

end Plan

/-- Where a task stands. -/
inductive Stage where
  | waiting
  | compiling (draft : Service.Draft) (phase : Service.Phase)
  | compiled (css : Text)
  /-- The output directory is there. -/
  | placed (css : Text)
  | ended (fault? : Option Fault)

namespace Stage

/-- Whether a task has begun and not ended. -/
def isBusy : Stage → Bool
  | .waiting | .ended _ => false
  | .compiling _ _ | .compiled _ | .placed _ => true

def isEnded : Stage → Bool
  | .ended _ => true
  | _ => false

/-- The fault that a task has ended with. -/
def fault? : Stage → Option Fault
  | .ended fault? => fault?
  | _ => none

theorem fault?_of_not_isEnded {stage : Stage} (h : stage.isEnded = false) :
    stage.fault? = none := by
  cases stage with
  | ended => cases h
  | waiting | compiling | compiled | placed => rfl

end Stage

/-- A file to build. -/
structure Task where
  src : Text
  stage : Stage

/-- The next step of a task. -/
def Task.turn (plan : Plan) (task : Task) (m : Machine) : Stage × Machine :=
  let dst := plan.output task.src
  match task.stage with
  | .waiting => (.compiling .new (.resolve task.src []), m)
  | .compiling _ (.stamp css _ _) => (.compiled css, m)
  | .compiling _ (.land (.ok (_, sheet))) => (.compiled sheet.css, m)
  | .compiling _ (.land (.error fault)) => (.ended (some (.tagged task.src fault)), m)
  | .compiling draft phase =>
    let ((draft, phase), sheets) :=
      phase.turn [] m.disk (plan.order task.src) draft (plan.bench m.world.library)
    (.compiling draft phase, m.withLibrary sheets.library)
  | .compiled css =>
    match act "create output directory" (makeDirs (Path.dir dst)) m with
    | (.ok (), m) => (.placed css, m)
    | (.error fault, m) => (.ended (some fault), m)
  | .placed css =>
    match act ("write " ++ dst) (write dst css) m with
    | (.ok (), m) => (.ended none, m)
    | (.error fault, m) => (.ended (some fault), m)
  | .ended fault? => (.ended fault?, m)

/-- A machine, the tasks of a build, and the faults of those that have failed so far. -/
structure Shop where
  machine : Machine
  tasks : List Task
  faults : List Fault

namespace Shop

def start (m : Machine) (files : List Text) : Shop :=
  ⟨m, files.map fun src => ⟨src, .waiting⟩, []⟩

/-- How many tasks have begun and not ended. -/
def busy (s : Shop) : Nat := s.tasks.countP fun task => task.stage.isBusy

/-- Whether a task at a stage can take a turn. One that waits needs room. -/
def permits (s : Shop) (plan : Plan) : Stage → Bool
  | .waiting => (s.busy : Int) < plan.concurrency
  | .ended _ => false
  | _ => true

/-- The shop after a task has come to a stage. -/
def put (s : Shop) (i : Nat) (src : Text) (x : Stage × Machine) : Shop :=
  ⟨x.2, s.tasks.set i ⟨src, x.1⟩, s.faults ++ x.1.fault?.toList⟩

/-- A task takes a turn, if it can. -/
def turn? (plan : Plan) (s : Shop) (i : Nat) : Option Shop :=
  match s.tasks[i]? with
  | none => none
  | some task =>
    if s.permits plan task.stage then some (s.put i task.src (task.turn plan s.machine)) else none

/-- Tasks take turns one after the other. -/
def run? (plan : Plan) (s : Shop) (schedule : List Nat) : Option Shop :=
  schedule.foldlM (turn? plan) s

/-- All tasks have ended. -/
def isDone (s : Shop) : Bool := s.tasks.all fun task => task.stage.isEnded

/-- The answer of a build. -/
def answer (s : Shop) : Except Fault Unit :=
  match Fault.ofList s.faults with
  | none => .ok ()
  | some fault => .error fault

theorem turn?_eq_some {plan : Plan} {s s' : Shop} {i : Nat} : s.turn? plan i = some s' ↔
    ∃ task, s.tasks[i]? = some task ∧ s.permits plan task.stage = true ∧
      s.put i task.src (task.turn plan s.machine) = s' := by
  rw [turn?]
  cases s.tasks[i]? with
  | none => simp
  | some task => simp

/-- What every turn keeps, every run keeps. -/
theorem run?_induction {plan : Plan} {P : Shop → Prop}
    (hstep : ∀ {s s' i}, P s → s.turn? plan i = some s' → P s') {s s' : Shop} {schedule : List Nat}
    (h : P s) (hrun : s.run? plan schedule = some s') : P s' := by
  induction schedule generalizing s with
  | nil =>
    cases hrun
    exact h
  | cons i schedule ih =>
    rw [run?, List.foldlM_cons] at hrun
    obtain ⟨next, hturn, hrest⟩ := Option.bind_eq_some_iff.mp hrun
    exact ih (hstep h hturn) hrest

end Shop

/-! ## Ready machines -/

section Plans
variable {o : LibraryOptions} {plan : Plan} {m : Machine} {src css : Text} {fault : Fault}
  {r : Refused}

theorem act_makeDirs {path : Text} (tag : Text) (h : m.look path = .ok .dir) :
    act tag (makeDirs path) m = (.ok (), m) := by
  rw [act, makeDirs, h]

namespace Plan

theorem sheet_eq_anew (hfresh : m.Fresh o) (plan : Plan) (src : Text) : plan.sheet m src =
    (plan.compiler.compileAnew m.world.library m.disk src).css.mapError Expand.Stop.toFault :=
  (compile_eq_anew hfresh (hfresh.follows plan.compiler) src).1

theorem fault?_of_error (h : plan.sheet m src = .error fault) :
    plan.fault? m src = some (.tagged src fault) := by
  rw [fault?, h]

/-- A file that compiles may still fail, as its style sheet cannot be written. -/
theorem fault?_of_refused (h : plan.sheet m src = .ok css)
    (hwrite : write (plan.output src) css m = .error r) :
    plan.fault? m src = some (.tagged ("write " ++ plan.output src) r.fault) := by
  simp only [fault?, h, hwrite]

theorem fault?_of_written (h : plan.sheet m src = .ok css)
    (hwrite : ∀ r, write (plan.output src) css m ≠ .error r) : plan.fault? m src = none := by
  simp only [fault?, h]
  cases hwritten : write (plan.output src) css m with
  | error r => exact absurd hwritten (hwrite r)
  | ok m' => rfl

/-- What a build starts from: the program has just been started, and the output directories are
there. -/
structure Ready (plan : Plan) (o : LibraryOptions) (m : Machine) (files : List Text) : Prop where
  fresh : m.Fresh o
  dirs : ∀ src ∈ files, m.look (Path.dir (plan.output src)) = .ok .dir

/-- The output path of a file leads to a place to which that of no other file leads. -/
def Apart (plan : Plan) (m : Machine) (files : List Text) (i : Nat) : Prop :=
  ∀ j src src', i ≠ j → files[i]? = some src → files[j]? = some src' →
    ∀ place, m.locate (plan.output src) = .ok place → m.locate (plan.output src') ≠ .ok place

end Plan

end Plans

/-! ## Turns -/

namespace Task
open Service (Doing Goes Draft Phase)
variable {o : LibraryOptions} {plan : Plan} {m now : Machine} {src src' : Text} {stage : Stage}
  {x : Stage × Machine}

/-- A task is right about the beginning: it has got as far as it would on its own. -/
inductive Right (plan : Plan) (m : Machine) : Task → Prop
  | waiting {src : Text} : Right plan m ⟨src, .waiting⟩
  | compiling {src : Text} {draft : Draft} {phase : Phase}
    (doing : Doing m.world.library [m.disk] m.disk (plan.order src) draft phase) :
    Right plan m ⟨src, .compiling draft phase⟩
  | compiled {src css : Text} (sheet : plan.sheet m src = .ok css) :
    Right plan m ⟨src, .compiled css⟩
  | placed {src css : Text} (sheet : plan.sheet m src = .ok css) : Right plan m ⟨src, .placed css⟩
  | ended {src : Text} : Right plan m ⟨src, .ended (plan.fault? m src)⟩

/-- What a turn of a task can do. -/
inductive Moves (plan : Plan) (m : Machine) (src : Text) (now : Machine) :
    Stage → Stage × Machine → Prop
  | begins : Moves plan m src now .waiting (.compiling .new (.resolve src []), now)
  | works {draft draft' : Draft} {phase phase' : Phase} {library : Library}
    (goes : Goes m.world.library [m.disk] m.disk (plan.order src) draft phase (draft', phase'))
    (memory : library.Right plan.compiler.propertySyntax m.world.library [m.disk] m.disk) :
    Moves plan m src now (.compiling draft phase)
      (.compiling draft' phase', now.withLibrary library)
  | compiles {draft : Draft} {phase : Phase} {css : Text} (sheet : plan.sheet m src = .ok css) :
    Moves plan m src now (.compiling draft phase) (.compiled css, now)
  | fails {draft : Draft} {phase : Phase} {fault : Fault}
    (sheet : plan.sheet m src = .error fault) :
    Moves plan m src now (.compiling draft phase) (.ended (some (.tagged src fault)), now)
  | places {css : Text} : Moves plan m src now (.compiled css) (.placed css, now)
  | refused {css : Text} {r : Refused} (refused : write (plan.output src) css now = .error r) :
    Moves plan m src now (.placed css)
      (.ended (some (.tagged ("write " ++ plan.output src) r.fault)), now)
  | writes {css : Text} {now' : Machine} (written : write (plan.output src) css now = .ok now') :
    Moves plan m src now (.placed css) (.ended none, now')

/-- Up to its style sheet, a task takes the turns of its compilation. -/
theorem turn_compiling {draft : Draft} {phase : Phase}
    (hstamp : ∀ css times rest, phase ≠ .stamp css times rest)
    (hland : ∀ result, phase ≠ .land result) :
    turn plan ⟨src, .compiling draft phase⟩ now =
      (.compiling (phase.turn [] now.disk (plan.order src) draft (plan.bench now.world.library)).1.1
        (phase.turn [] now.disk (plan.order src) draft (plan.bench now.world.library)).1.2,
        now.withLibrary
          (phase.turn [] now.disk (plan.order src) draft
            (plan.bench now.world.library)).2.library) := by
  cases phase with
  | stamp css times rest => exact absurd rfl (hstamp css times rest)
  | land result => exact absurd rfl (hland result)
  | resolve | seek | date | drop | read | finish | commit | store | keep => rfl

section Moves
variable (hfresh : m.Fresh o) (hnow : Follows plan.compiler m now)
include hfresh hnow

/-- Turns of a compilation are right about the beginning, so its style sheet is that of the file on
its own. -/
theorem moves_compiling {draft : Draft} {phase : Phase}
    (doing : Doing m.world.library [m.disk] m.disk (plan.order src) draft phase) :
    Moves plan m src now (.compiling draft phase)
      (turn plan ⟨src, .compiling draft phase⟩ now) := by
  have hsheet := Plan.sheet_eq_anew hfresh plan src
  by_cases hstamp : ∃ css times rest, phase = .stamp css times rest
  · obtain ⟨css, times, rest, rfl⟩ := hstamp
    cases doing with | stamp ends files stamped =>
      rw [show plan.compiler.compileAnew _ _ src = _ from ends] at hsheet
      exact .compiles hsheet
  · by_cases hland : ∃ result, phase = .land result
    · obtain ⟨result, rfl⟩ := hland
      cases doing with | land ends result_eq =>
        rw [show plan.compiler.compileAnew _ _ src = _ from ends, ← result_eq] at hsheet
        cases result with
        | error fault => exact .fails hsheet
        | ok entry => exact .compiles hsheet
    · have hphase : ∀ result, phase ≠ .land result := fun result h => hland ⟨result, h⟩
      have hsteady : Service.Steady m.world.library m.disk (plan.order src)
          ((draft, phase), plan.bench now.world.library) := ⟨doing, hnow.memory⟩
      obtain ⟨hgoes, hmemory⟩ :=
        hsteady.goes hfresh.rooted hfresh.isClear hnow.later.sources [] hphase
      rw [turn_compiling (fun css times rest h => hstamp ⟨css, times, rest, h⟩) hphase]
      exact .works hgoes hmemory

variable (hdir : m.look (Path.dir (plan.output src)) = .ok .dir)
include hdir

/-- **Every turn of a task is one of these moves.** -/
theorem turn_moves (h : Right plan m ⟨src, stage⟩) (hlive : stage.isEnded = false) :
    Moves plan m src now stage (turn plan ⟨src, stage⟩ now) := by
  cases h with
  | waiting => exact .begins
  | compiling doing => exact moves_compiling hfresh hnow doing
  | compiled sheet =>
    unfold turn
    dsimp only
    rw [act_makeDirs _ (hnow.later.look_dir hdir)]
    exact .places
  | @placed _ css sheet =>
    unfold turn
    dsimp only
    rw [act]
    cases hwrite : write (plan.output src) css now with
    | error r => exact .refused hwrite
    | ok now' => exact .writes hwrite
  | ended => cases hlive

/-- A turn leaves a task right. -/
theorem Moves.right (hmoves : Moves plan m src now stage x) (h : Right plan m ⟨src, stage⟩) :
    Right plan m ⟨src, x.1⟩ := by
  cases hmoves with
  | begins => exact .compiling (.resolve .first)
  | works goes memory =>
    cases h with | compiling doing =>
      exact .compiling (goes.doing hfresh.rooted List.mem_cons_self doing)
  | compiles sheet => exact .compiled sheet
  | fails sheet =>
    rw [← Plan.fault?_of_error sheet]
    exact .ended
  | places =>
    cases h with | compiled sheet => exact .placed sheet
  | @refused css r refused =>
    cases h with | placed sheet =>
      have hwrite := (write_eq_error_iff hdir hnow.later css css).mp refused
      rw [← Plan.fault?_of_refused sheet hwrite]
      exact .ended
  | @writes css now' written =>
    cases h with | placed sheet =>
      have hwrite : ∀ r, write (plan.output src) css m ≠ .error r := by
        intro r hr
        cases ((write_eq_error_iff hdir hnow.later css css).mpr hr).symm.trans written
      rw [← Plan.fault?_of_written sheet hwrite]
      exact .ended

omit hfresh

/-- **Turns do not disturb each other.** Compiling changes the library only, which stays right, and
writing keeps the sources. -/
theorem Moves.follows (hmoves : Moves plan m src now stage x) : Follows plan.compiler m x.2 := by
  cases hmoves with
  | works goes memory => exact ⟨⟨hnow.later.workDir, hnow.later.sources⟩, memory⟩
  | writes written =>
    refine ⟨later_write hdir hnow.later written, ?_⟩
    obtain ⟨place, -, -, -, rfl⟩ := place_of_write hdir hnow.later written
    exact hnow.memory
  | begins | compiles | fails | places | refused => exact hnow

/-- A turn shows at no other output path. -/
theorem Moves.look_of_other (hmoves : Moves plan m src now stage x)
    (hdir' : m.look (Path.dir (plan.output src')) = .ok .dir)
    (hother : ∀ place, m.locate (plan.output src) = .ok place →
      m.locate (plan.output src') ≠ .ok place) :
    x.2.look (plan.output src') = now.look (plan.output src') := by
  cases hmoves with
  | writes written => exact look_write_of_other hdir hdir' hnow.later written hother
  | begins | works | compiles | fails | places | refused => rfl

end Moves

/-- What stands at the output path of a task: its style sheet once it is written, and before that
what was there at the beginning. -/
structure Shown (plan : Plan) (m now : Machine) (task : Task) : Prop where
  written : task.stage = .ended none → ∃ css, plan.sheet m task.src = .ok css ∧
    now.read (plan.output task.src) = .ok css
  kept : task.stage ≠ .ended none →
    now.look (plan.output task.src) = m.look (plan.output task.src)

theorem Shown.congr {task : Task} {now' : Machine} (h : task.Shown plan m now)
    (hlook : now'.look (plan.output task.src) = now.look (plan.output task.src)) :
    task.Shown plan m now' where
  written hstage := by
    obtain ⟨css, hsheet, hread⟩ := h.written hstage
    refine ⟨css, hsheet, ?_⟩
    rw [Machine.read, hlook]
    exact hread
  kept hstage := hlook.trans (h.kept hstage)

/-- A task that has not written its style sheet leaves its output path alone, and one that writes it
leaves it there. -/
theorem Moves.shown (hmoves : Moves plan m src now stage x) (hnow : Follows plan.compiler m now)
    (hdir : m.look (Path.dir (plan.output src)) = .ok .dir) (hright : Right plan m ⟨src, stage⟩)
    (h : Shown plan m now ⟨src, stage⟩) : Shown plan m x.2 ⟨src, x.1⟩ := by
  have hkept (hstage : stage ≠ .ended none) :
      now.look (plan.output src) = m.look (plan.output src) := h.kept hstage
  cases hmoves with
  | writes written =>
    cases hright with | placed sheet =>
      exact ⟨fun _ => ⟨_, sheet, read_write hdir hnow.later written⟩, fun h => absurd rfl h⟩
  | begins | works | compiles | fails | places | refused =>
    exact ⟨(fun h => by cases h), fun _ => hkept (fun h => by cases h)⟩

end Task

/-! ## Runs -/

/-- When a member that has no image is replaced, the image of the new one is added. -/
theorem perm_filterMap_set {α β : Type} {f : α → Option β} {l : List α} {i : Nat} {x : α} (y : α)
    (hx : l[i]? = some x) (hnone : f x = none) :
    ((l.set i y).filterMap f).Perm (l.filterMap f ++ (f y).toList) := by
  induction l generalizing i with
  | nil => cases hx
  | cons a l ih =>
    cases i with
    | zero =>
      cases hx
      rw [List.set_cons_zero, List.filterMap_cons_none hnone]
      cases hy : f y with
      | none =>
        rw [List.filterMap_cons_none hy]
        exact .of_eq (List.append_nil _).symm
      | some b =>
        rw [List.filterMap_cons_some hy]
        exact (List.perm_append_singleton b _).symm
    | succ i =>
      rw [List.set_cons_succ]
      cases ha : f a with
      | none =>
        rw [List.filterMap_cons_none ha, List.filterMap_cons_none ha]
        exact ih hx
      | some b =>
        rw [List.filterMap_cons_some ha, List.filterMap_cons_some ha]
        exact (ih hx).cons b

namespace Shop
variable {o : LibraryOptions} {plan : Plan} {m : Machine} {files : List Text} {s s' : Shop}
  {i : Nat} {stage : Stage}

/-- What holds all the time. -/
structure Sound (plan : Plan) (m : Machine) (files : List Text) (s : Shop) : Prop where
  follows : Follows plan.compiler m s.machine
  srcs : s.tasks.map Task.src = files
  tasks : ∀ task ∈ s.tasks, task.Right plan m
  shown : ∀ i task, s.tasks[i]? = some task → plan.Apart m files i → task.Shown plan m s.machine
  faults : s.faults.Perm (s.tasks.filterMap fun task => task.stage.fault?)

theorem sound_start (hready : plan.Ready o m files) : (start m files).Sound plan m files where
  follows := hready.fresh.follows _
  srcs := by
    rw [start, List.map_map]
    exact List.map_id _
  tasks task htask := by
    obtain ⟨src, -, rfl⟩ := List.mem_map.mp htask
    exact .waiting
  shown i task htask _ := by
    obtain ⟨src, -, rfl⟩ := List.mem_map.mp (List.mem_of_getElem? htask)
    exact ⟨(fun h => by cases h), fun _ => rfl⟩
  faults := by
    have hnone : (files.map fun src => (⟨src, .waiting⟩ : Task)).filterMap
        (fun task => task.stage.fault?) = [] := by
      rw [List.filterMap_eq_nil_iff]
      intro task htask
      obtain ⟨src, -, rfl⟩ := List.mem_map.mp htask
      rfl
    exact .of_eq hnone.symm

theorem isEnded_of_permits (h : s.permits plan stage = true) : stage.isEnded = false := by
  cases stage with
  | ended => cases h
  | waiting | compiling | compiled | placed => rfl

theorem permits_of_isBusy (h : stage.isBusy = true) : s.permits plan stage = true := by
  cases stage with
  | waiting | ended => cases h
  | compiling | compiled | placed => rfl

/-- A turn as a move of its task. -/
theorem Sound.moves (hready : plan.Ready o m files) (h : s.Sound plan m files)
    (hturn : s.turn? plan i = some s') : ∃ src stage x, s.tasks[i]? = some ⟨src, stage⟩ ∧
      stage.isEnded = false ∧ files[i]? = some src ∧ Task.Moves plan m src s.machine stage x ∧
      s' = s.put i src x := by
  obtain ⟨⟨src, stage⟩, htask, hpermits, rfl⟩ := turn?_eq_some.mp hturn
  have hfile : files[i]? = some src := by
    rw [← h.srcs, List.getElem?_map, htask]
    rfl
  have hlive := isEnded_of_permits hpermits
  have hright := h.tasks _ (List.mem_of_getElem? htask)
  have hdir := hready.dirs src (List.mem_of_getElem? hfile)
  exact ⟨src, stage, _, htask, hlive, hfile,
    Task.turn_moves hready.fresh h.follows hdir hright hlive, rfl⟩

/-- **A turn leaves the shop sound.** -/
theorem Sound.turn (hready : plan.Ready o m files) (h : s.Sound plan m files)
    (hturn : s.turn? plan i = some s') : s'.Sound plan m files := by
  obtain ⟨src, stage, x, htask, hlive, hfile, hmoves, rfl⟩ := h.moves hready hturn
  have hmem := List.mem_of_getElem? htask
  have hdir := hready.dirs src (List.mem_of_getElem? hfile)
  refine ⟨hmoves.follows h.follows hdir, ?_, fun task hset => ?_, fun j task hj hapart => ?_, ?_⟩
  · rw [put, List.map_set, h.srcs]
    obtain ⟨hi, rfl⟩ := List.getElem?_eq_some_iff.mp hfile
    exact List.set_getElem_self hi
  · rcases List.mem_or_eq_of_mem_set hset with hold | rfl
    · exact h.tasks task hold
    · exact hmoves.right hready.fresh h.follows hdir (h.tasks _ hmem)
  · by_cases hij : i = j
    · subst hij
      rw [put, List.getElem?_set_self (List.getElem?_eq_some_iff.mp htask).1] at hj
      cases hj
      exact hmoves.shown h.follows hdir (h.tasks _ hmem) (h.shown i _ htask hapart)
    · rw [put, List.getElem?_set_ne hij] at hj
      have hother : files[j]? = some task.src := by
        rw [← h.srcs, List.getElem?_map, hj]
        rfl
      refine (h.shown j task hj hapart).congr ?_
      exact hmoves.look_of_other h.follows hdir (hready.dirs _ (List.mem_of_getElem? hother))
        fun place hplace hplace' => hapart i _ _ (Ne.symm hij) hother hfile place hplace' hplace
  · have hperm := perm_filterMap_set (f := fun task : Task => task.stage.fault?) ⟨src, x.1⟩ htask
      (Stage.fault?_of_not_isEnded hlive)
    exact (h.faults.append_right _).trans hperm.symm

/-- **Every run leaves the shop sound.** -/
theorem sound_run (hready : plan.Ready o m files) {schedule : List Nat}
    (hrun : (start m files).run? plan schedule = some s) : s.Sound plan m files :=
  run?_induction (fun h hturn => h.turn hready hturn) (sound_start hready) hrun

/-! ## Every run ends -/

/-- The next state of a task. -/
def Next (plan : Plan) (m : Machine) (task' task : Task) : Prop :=
  task'.src = task.src ∧
    ∃ now now', Task.Moves plan m task.src now task.stage (task'.stage, now')

section Ends
variable {src css : Text}

end Ends

/-- As long as some task has not ended, some task can take a turn. -/
theorem exists_turn (hroom : 1 ≤ plan.concurrency) (h : s.isDone = false) :
    ∃ i, (s.turn? plan i).isSome = true := by
  have hturn {task : Task} (htask : task ∈ s.tasks) (hpermits : s.permits plan task.stage = true) :
      ∃ i, (s.turn? plan i).isSome = true := by
    obtain ⟨i, hi⟩ := List.mem_iff_getElem?.mp htask
    refine ⟨i, ?_⟩
    rw [turn?, hi]
    dsimp only
    rw [if_pos hpermits]
    rfl
  by_cases hbusy : ∃ task ∈ s.tasks, task.stage.isBusy = true
  · obtain ⟨task, htask, hstage⟩ := hbusy
    exact hturn htask (permits_of_isBusy hstage)
  · have hidle : s.busy = 0 := by
      rw [busy, List.countP_eq_zero]
      exact fun task htask hstage => hbusy ⟨task, htask, hstage⟩
    rw [isDone, List.all_eq_false] at h
    obtain ⟨⟨src, stage⟩, htask, hstage⟩ := h
    refine hturn htask ?_
    cases stage with
    | waiting =>
      show decide ((s.busy : Int) < plan.concurrency) = true
      rw [hidle]
      exact decide_eq_true (by omega)
    | ended => exact absurd rfl hstage
    | compiling | compiled | placed => rfl

end Shop

end Tool

end IndentedSass
