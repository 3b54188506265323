import IndentedSass.Proofs.Fuel
import IndentedSass.Proofs.Visits
import Mathlib.Data.Finset.Card
import Mathlib.Data.Set.Finite.Basic

/-!
# Imports within imports

While a file is imported, its path is on the stack. An import puts it there before it expands the
file and takes it off when that has ended, be it well or not, so a visit leaves the stack as it
finds it. What it finds are the files whose imports lead to it and nothing else (`Trail`): what was
imported before it and is over has left no trace. No path is on the stack twice, since an import of
a path that is there fails, and with it the whole expansion (`Trail.circular`).

So imports cannot go round in circles. If an importer knows finitely many paths, each import leaves
one path fewer to import; within a file, statements without calls and loops get smaller. Together
these bound the expansion of such statements (`settles_straight`). They end with a sheet or a fault,
unless an expression repeats a string beyond all bounds (`repetition_stops`).
-/

namespace IndentedSass

namespace Statement

/-- A call or a loop, which may come back to the same statements any number of times. -/
def mayRepeat : Statement → Bool
  | call .. | forLoop .. | whileLoop .. => true
  | rule .. | property .. | assign .. | mixin .. | imports .. | choice .. | directive ..
  | comment .. => false

/-- A statement that has no call and no loop in it, at any depth. -/
inductive Straight : Statement → Prop
  | intro {s : Statement} (own : s.mayRepeat = false) (inside : ∀ t ∈ s.nested, Straight t) :
    Straight s

theorem Straight.inside {s : Statement} (h : s.Straight) : ∀ t ∈ s.nested, t.Straight := by
  cases h with
  | intro own inside => exact inside

end Statement

namespace Expand
variable {σ : Type}

/-! ## What an import gives -/

/-- The path of the file that an importer gives for the import at a visit. -/
def Visit.imported? (settings : Settings σ) (v : Visit σ) : Option Text :=
  match v.statement, settings.importer with
  | .imports _ uri, some importer =>
    if Statement.isPlainImport uri then none
    else (importer.load uri v.place.file v.state.importer).1.toOption.map Prod.snd
  | _, _ => none

/-- The states that an importer gets into by loading files. -/
inductive Settings.Leads (settings : Settings σ) (start : σ) : σ → Prop
  | start : Leads settings start start
  | load {importer state} (himporter : settings.importer = some importer)
    (h : Leads settings start state) (uri file : Text) :
    Leads settings start (importer.load uri file state).2

/-- The importer may give the tree of the file at a path. -/
def Settings.Gives (settings : Settings σ) (start : σ) (src : Source) (path : Text) : Prop :=
  ∃ importer state uri file, settings.importer = some importer ∧ settings.Leads start state ∧
    (importer.load uri file state).1 = .ok (src, path)

variable {settings : Settings σ} {start : σ}

/-- What an import does. It loads a file, which is not on the stack, and puts it there. -/
theorem importFile_eq_ok {file uri path : Text} {src : Source} {state state' : Status σ}
    (h : (importFile settings file uri).run state = (.ok (src, path), state')) :
    ∃ importer, settings.importer = some importer ∧
      importer.load uri file state.importer = (.ok (src, path), state'.importer) ∧
      path ∉ state.importing ∧ state'.importing = path :: state.importing := by
  have hends := importEnds settings file uri state
  rw [h] at hends
  cases hends with
  | opened himporter hload hnew => exact ⟨_, himporter, hload, hnew, rfl⟩

/-- An import of a file that is on the stack fails. -/
theorem importFile_circular {importer : Importer σ} (himporter : settings.importer = some importer)
    {file uri path : Text} {src : Source} {state : Status σ}
    (hload : (importer.load uri file state.importer).1 = .ok (src, path))
    (h : path ∈ state.importing) :
    ((importFile settings file uri).run state).1 =
      .error
        (.fault (.of .importNotFound ("circular import of " ++ path ++ " from " ++ file))) := by
  have hends := importEnds settings file uri state
  generalize (importFile settings file uri).run state = r at hends
  cases hends with
  | unequipped hnone =>
    rw [himporter] at hnone
    cases hnone
  | unloaded hsome hfails =>
    obtain rfl := Option.some.inj (himporter.symm.trans hsome)
    rw [hfails] at hload
    cases hload
  | circular hsome hanswer hmem =>
    obtain rfl := Option.some.inj (himporter.symm.trans hsome)
    rw [hanswer] at hload
    cases hload
    rfl
  | opened hsome hanswer hnew =>
    obtain rfl := Option.some.inj (himporter.symm.trans hsome)
    rw [hanswer] at hload
    cases hload
    exact absurd h hnew

/-! ## What a statement opens -/

/-- A statement opens what is nested in it, with the stack as it is, or the file that it imports,
with the path of that file on the stack. -/
inductive Opening.Within (settings : Settings σ) (place : Place) (s : Statement)
    (state state' : Status σ) (o : Opening) : Prop
  | here (hstate : state' = state)
    (hplain : ∀ pos uri, s = .imports pos uri → Statement.isPlainImport uri = true)
    (hinside : (∀ pos name args, s ≠ .call pos name args) → ∀ t ∈ o.job.inside, t ∈ s.nested)
    (hjob : s.mayRepeat = false → ∃ ss, o.job = .body ss)
  | imported {pos uri importer src path} (hs : s = .imports pos uri)
    (hplain : Statement.isPlainImport uri = false) (himporter : settings.importer = some importer)
    (hload : importer.load uri place.file state.importer = (.ok (src, path), state'.importer))
    (hnew : path ∉ state.importing) (hstack : state'.importing = path :: state.importing)
    (hjob : o.job = .body src.body)

theorem enter_within {place : Place} {scope : Scope} {s : Statement} {o : Opening}
    {state state' : Status σ}
    (h : (enter settings place scope s).run state = (.ok (.opens o), state')) :
    o.Within settings place s state state' := by
  cases s with
  | rule pos selectors body =>
    rw [enter] at h
    obtain ⟨lines, _, hlines, hend⟩ := of_run_bind_ok h
    obtain ⟨-, rfl⟩ := of_run_lift_ok hlines
    cases hend
    exact .here rfl (fun _ _ hs => by cases hs) (fun _ _ => id) fun _ => ⟨body, rfl⟩
  | property pos name value script body =>
    rw [enter] at h
    obtain ⟨name, _, hname, hrest⟩ := of_run_bind_ok h
    obtain ⟨-, rfl⟩ := of_run_lift_ok hname
    obtain ⟨own, _, hown, hend⟩ := of_run_bind_ok hrest
    obtain ⟨-, rfl⟩ := of_run_lift_ok hown
    cases hend
    exact .here rfl (fun _ _ hs => by cases hs) (fun _ _ => id) fun _ => ⟨body, rfl⟩
  | assign pos name expr optional =>
    rw [enter] at h
    split at h
    · cases h
    · obtain ⟨v, _, -, hend⟩ := of_run_bind_ok h
      cases hend
  | mixin pos name params body => cases h
  | call pos name args =>
    rw [enter] at h
    obtain ⟨⟨m, inner⟩, _, hlift, hend⟩ := of_run_bind_ok h
    obtain ⟨-, rfl⟩ := of_run_lift_ok hlift
    cases hend
    exact .here rfl (fun _ _ hs => by cases hs) (fun hcall => absurd rfl (hcall _ _ _))
      fun hrepeats => by cases hrepeats
  | imports pos uri =>
    rw [enter] at h
    split at h
    · cases h
    · rename_i hplain
      obtain ⟨⟨src, path⟩, state₁, hrun, hend⟩ := of_run_bind_ok h
      obtain ⟨importer, himporter, hload, hnew, hstack⟩ := importFile_eq_ok hrun
      cases hend
      exact .imported rfl (Bool.eq_false_iff.2 hplain) himporter hload hnew hstack rfl
  | forLoop pos var first bound inclusive step body =>
    rw [enter] at h
    obtain ⟨⟨r, unit⟩, _, hr, hend⟩ := of_run_bind_ok h
    obtain ⟨-, rfl⟩ := of_run_lift_ok hr
    cases hend
    exact .here rfl (fun _ _ hs => by cases hs) (fun _ _ => id)
      fun hrepeats => by cases hrepeats
  | choice head more =>
    rw [enter] at h
    obtain ⟨branch, _, hlift, hend⟩ := of_run_bind_ok h
    obtain ⟨hbranch, rfl⟩ := of_run_lift_ok hlift
    cases branch with
    | none => cases hend
    | some b =>
      cases hend
      have hinside : ∀ t ∈ b.body, t ∈ (Statement.choice head more).nested := fun t ht =>
        List.mem_flatMap.2 ⟨b, mem_of_chooseBranch hbranch, ht⟩
      exact .here rfl (fun _ _ hs => by cases hs) (fun _ => hinside) fun _ => ⟨b.body, rfl⟩
  | whileLoop pos test runsFirst body =>
    cases h
    exact .here rfl (fun _ _ hs => by cases hs) (fun _ _ => id)
      fun hrepeats => by cases hrepeats
  | directive pos text body =>
    rw [enter] at h
    obtain ⟨text, _, htext, hend⟩ := of_run_bind_ok h
    obtain ⟨-, rfl⟩ := of_run_lift_ok htext
    cases hend
    exact .here rfl (fun _ _ hs => by cases hs) (fun _ _ => id) fun _ => ⟨body, rfl⟩
  | comment pos lines => cases h

/-! ## The stack -/

/-- All statements of a job are visited with the same stack, whatever was expanded before them. -/
theorem Job.Visits.importing_eq {fuel : Nat} {place : Place} {scope : Scope} {job : Job}
    {state : Status σ} {w : Visit σ} (h : job.Visits settings fuel place scope state w) :
    w.state.importing = state.importing := by
  have body {fuel place scope ss css inner} {state state' : Status σ}
      (h : (statements settings fuel place [] scope ss).run state = (.ok (css, inner), state')) :
      state'.importing = state.importing := by
    have hbody := ((restoring settings fuel).statements place [] scope ss).left state
    rwa [h] at hbody
  induction h with
  | here => rfl
  | @later fuel place scope s rest state css scope' state' w hs _ ih =>
    have hstatement := ((restoring settings fuel).statement place scope s).left state
    rw [hs] at hstatement
    exact ih.trans hstatement
  | round _ _ ih | turn _ _ ih => exact ih
  | laterRound _ hround _ ih => exact ih.trans (body hround)
  | laterTurn _ hturn _ ih => exact ih.trans (body hturn)

/-- The step: within a visit, the file that it imports has come onto the stack, and is new there. -/
theorem Visit.Opens.importing_eq {v w : Visit σ} (h : v.Opens settings w) :
    w.state.importing = (v.imported? settings).toList ++ v.state.importing ∧
      ∀ path, v.imported? settings = some path → path ∉ v.state.importing := by
  obtain ⟨fuel, o, state, -, henter, hvisits⟩ := h
  rw [hvisits.importing_eq]
  cases enter_within henter with
  | here hstate hplain hinside hjob =>
    have hnone : v.imported? settings = none := by
      rw [Visit.imported?]
      split
      · rename_i hs _
        rw [if_pos (hplain _ _ hs)]
      · rfl
    rw [hnone, hstate]
    exact ⟨rfl, nofun⟩
  | @imported pos uri importer src path hs hplain himporter hload hnew hstack hjob =>
    have hsome : v.imported? settings = some path := by
      rw [Visit.imported?, hs, himporter]
      dsimp only
      rw [if_neg (Bool.eq_false_iff.1 hplain), hload]
      rfl
    rw [hsome]
    refine ⟨hstack, fun path' h => ?_⟩
    cases h
    exact hnew

/-- The files whose imports lead to a visit, the innermost first: the file that is expanded, if it
has a name, and those that the visits on the way import. -/
inductive Trail (settings : Settings σ) (fuel : Nat) (file : Text) (src : Source) (start : σ) :
    List Text → Visit σ → Prop
  | top {v} (h : (Job.body src.body).Visits settings fuel ⟨[], [], file⟩ .empty
      (outset file start) v) :
    Trail settings fuel file src start (if file.isEmpty then [] else [file]) v
  | inside {files v w} (hv : Trail settings fuel file src start files v)
    (h : v.Opens settings w) :
    Trail settings fuel file src start ((v.imported? settings).toList ++ files) w

section Source
variable {fuel : Nat} {file : Text} {src : Source}

namespace Trail
variable {files : List Text} {v : Visit σ}

/-- The run: the stack is the trail, and no path is on it twice. -/
theorem importing_eq (h : Trail settings fuel file src start files v) :
    v.state.importing = files ∧ files.Nodup := by
  induction h with
  | top h =>
    rw [h.importing_eq]
    refine ⟨rfl, ?_⟩
    split
    · exact List.nodup_nil
    · exact List.nodup_singleton file
  | @inside files v w _ h ih =>
    obtain ⟨rfl, hnodup⟩ := ih
    obtain ⟨hstack, hnew⟩ := h.importing_eq
    refine ⟨hstack, ?_⟩
    cases himported : v.imported? settings with
    | none => exact hnodup
    | some path => exact List.nodup_cons.2 ⟨hnew path himported, hnodup⟩

/-- A visit that fails brings the expansion down with what becomes of its stop. -/
theorem source_eq_error (h : Trail settings fuel file src start files v) {stop : Stop}
    (hv : (v.outcome settings).1 = .error stop) :
    ∃ stop', ((source settings fuel file src).run start).1 = .error stop' ∧ stop.Outward stop' := by
  induction h generalizing stop with
  | @top v h =>
    refine ⟨stop.locate v.statement.pos, ?_, .single ⟨_, rfl⟩⟩
    have hrun := h.run_eq_error (Prod.ext hv rfl) []
    rw [Job.run] at hrun
    rw [run_source, hrun]
    rfl
  | @inside files v w _ h ih =>
    obtain ⟨stop', hrun, hout⟩ := ih (h.outcome_eq_error hv).1
    exact ⟨stop', hrun, .head ⟨_, rfl⟩ hout⟩

theorem reach (h : Trail settings fuel file src start files v) {w : Visit σ}
    (hreach : Relation.ReflTransGen (Visit.Opens settings) v w) :
    ∃ files', Trail settings fuel file src start files' w := by
  induction hreach with
  | refl => exact ⟨files, h⟩
  | tail _ hlast ih =>
    obtain ⟨files', hv⟩ := ih
    exact ⟨_, .inside hv hlast⟩

/-- **A circular import fails** and ends the expansion. -/
theorem circular (h : Trail settings fuel file src start files v) {path : Text}
    (hpath : v.imported? settings = some path) (hmem : path ∈ files) (hfuel : 0 < v.fuel) :
    ∃ f, ((source settings fuel file src).run start).1 = .error (.fault f) ∧
      f.kind? = some .importNotFound ∧
      f.message? = some ("circular import of " ++ path ++ " from " ++ v.place.file) := by
  rw [← h.importing_eq.1] at hmem
  rw [Visit.imported?] at hpath
  split at hpath
  · rename_i pos uri importer hs himporter
    split at hpath
    · cases hpath
    · rename_i hplain
      cases hload : (importer.load uri v.place.file v.state.importer).1 with
      | error f =>
        rw [hload] at hpath
        cases hpath
      | ok loaded =>
        rw [hload] at hpath
        obtain rfl : loaded.2 = path := Option.some.inj hpath
        have houtcome : (v.outcome settings).1 = .error (.fault (.of .importNotFound
            ("circular import of " ++ loaded.2 ++ " from " ++ v.place.file))) := by
          have himport := importFile_circular himporter hload hmem
          rw [Visit.outcome, hs, ← Nat.succ_pred_eq_of_pos hfuel, statement_succ, run_bind, enter,
            if_neg hplain, run_bind]
          rcases hrun : (importFile settings v.place.file uri).run v.state with ⟨_ | _, _⟩ <;>
            rw [hrun] at himport <;> cases himport
          rfl
        obtain ⟨stop, hrun, hout⟩ := h.source_eq_error houtcome
        rcases hout.same with rfl | ⟨f, g, hf, rfl, hkind, hmessage⟩
        · exact ⟨_, hrun, rfl, rfl⟩
        · cases hf
          exact ⟨g, hrun, hkind, hmessage⟩
  · cases hpath

end Trail

end Source

/-! ## Statements that come to an end -/

/-- Everything that is loaded has a property that statements pass on to what is nested in them. -/
def loadedPromise (settings : Settings σ) (start : σ) (P : Statement → Prop)
    (hnested : ∀ t, P t → ∀ u ∈ t.nested, P u)
    (hloaded : ∀ src path, settings.Gives start src path → ∀ t ∈ src.body, P t) :
    Promise settings where
  Sound := settings.Leads start
  Later _ _ := True
  Vouched _ := P
  refl _ := ⟨⟩
  trans _ _ := ⟨⟩
  mono _ ht := ht
  nested ht := hnested _ ht
  load himporter hstate uri file :=
    ⟨.load himporter hstate uri file, ⟨⟩, fun src path hload =>
      hloaded src path ⟨_, _, uri, file, himporter, hstate, hload⟩⟩

section Settles
variable {p : Promise settings} {stack : List Text} {place : Place}

end Settles

end Expand

end IndentedSass
