import IndentedSass.Proofs.BareFaults
import IndentedSass.Proofs.ScopeDiscipline
import Mathlib.Logic.Relation

/-!
# The statement at which an expansion fails

An expansion visits statements, and a statement that opens a job visits those of the job. When a
visit fails, all visits that led to it fail as well, so the one to blame is the innermost: a visit
that fails although nothing that it visits does (`Visit.Raises`). This module shows that a failed
expansion has such a visit (`exists_raises`), and which position its fault gets
(`Visit.Blames`): that of the statement, or that of the branch whose test failed. Only a fault from
loading a file may come with a position of its own. A visit that is stopped by a string that is too
long goes the same way.
-/

namespace IndentedSass.Expand
open Relation
variable {σ : Type}

/-! ## Stops on their way out -/

namespace Stop

/-- The position of a fault. -/
def pos? : Stop → Option Position
  | .fault f => f.pos?
  | .overflow _ | .outOfFuel => none

/-- A fault whose position is still open, or a string that is too long indeed. -/
def IsBare : Stop → Prop
  | .fault f => f.IsBare
  | .overflow length => Script.Value.lengthLimit < length
  | .outOfFuel => False

theorem isBare_ofHalt (halt : Script.Halt) : (ofHalt halt).IsBare ↔ halt.IsBare := by
  cases halt <;> rfl

/-- `b` is what becomes of `a` on its way out: the statements around give it their positions. -/
def Outward : Stop → Stop → Prop := ReflTransGen fun a b => ∃ pos, b = a.locate pos

variable {a b : Stop}

/-- A position, once a fault has one, stays. -/
theorem Outward.pos? (h : a.Outward b) {pos : Position} (ha : a.pos? = some pos)
    (hpos : pos.isNone = false) : b.pos? = some pos := by
  induction h with
  | refl => exact ha
  | @tail b _ _ hlast ih =>
    obtain ⟨pos', rfl⟩ := hlast
    cases b with
    | fault f => exact Fault.pos?_locate_of_placed ih hpos pos'
    | overflow _ | outOfFuel => cases ih

/-- Otherwise a fault stays what it is, and all else does not change. -/
theorem Outward.same (h : a.Outward b) :
    b = a ∨ ∃ f g, a = .fault f ∧ b = .fault g ∧ g.kind? = f.kind? ∧ g.message? = f.message? := by
  induction h with
  | refl => exact .inl rfl
  | @tail b _ _ hlast ih =>
    obtain ⟨pos, rfl⟩ := hlast
    rcases ih with rfl | ⟨f, g, rfl, rfl, hkind, hmessage⟩
    · cases b with
      | fault f => exact .inr ⟨f, _, rfl, rfl, f.kind?_locate pos, f.message?_locate pos⟩
      | overflow _ | outOfFuel => exact .inl rfl
    · exact .inr ⟨f, _, rfl, rfl, (g.kind?_locate pos).trans hkind,
        (g.message?_locate pos).trans hmessage⟩

/-- What takes no position comes out as it is. -/
theorem Outward.eq_of_unmoved (h : a.Outward b) (ha : ∀ pos, a.locate pos = a) : b = a := by
  induction h with
  | refl => rfl
  | tail _ hlast ih =>
    obtain ⟨pos, rfl⟩ := hlast
    rw [ih, ha]

theorem Outward.of_fault {f : Fault} (h : a.Outward (.fault f)) :
    ∃ g, a = .fault g ∧ f.kind? = g.kind? ∧ f.message? = g.message? := by
  rcases h.same with rfl | ⟨g, _, rfl, hf, hsame⟩
  · exact ⟨f, rfl, rfl, rfl⟩
  · cases hf
    exact ⟨g, rfl, hsame⟩

end Stop

/-! ## Visits -/

/-- A statement that is about to be expanded. -/
structure Visit (σ : Type) where
  fuel : Nat
  place : Place
  scope : Scope
  statement : Statement
  state : Status σ

/-- The visits of a job: statements one after the other as long as they succeed, round after
round. -/
inductive Job.Visits (settings : Settings σ) :
    Nat → Place → Scope → Job → Status σ → Visit σ → Prop
  | here {fuel place scope s rest state} :
    Visits settings (fuel + 1) place scope (.body (s :: rest)) state ⟨fuel, place, scope, s, state⟩
  | later {fuel place scope s rest state css scope' state' w}
    (h : (statement settings fuel place scope s).run state = (.ok (css, scope'), state'))
    (hw : Visits settings fuel place scope' (.body rest) state' w) :
    Visits settings (fuel + 1) place scope (.body (s :: rest)) state w
  | round {fuel place scope r x loop state w} (h : r.runs x = true)
    (hw : Visits settings fuel place (scope.push.set loop.1 (.number ⟨x, loop.2.1⟩))
      (.body loop.2.2) state w) :
    Visits settings (fuel + 1) place scope (.count r x loop) state w
  | laterRound {fuel place scope r x loop state css inner state' w} (h : r.runs x = true)
    (hround : (statements settings fuel place []
      (scope.push.set loop.1 (.number ⟨x, loop.2.1⟩)) loop.2.2).run state =
        (.ok (css, inner), state'))
    (hw : Visits settings fuel place inner.pop (.count r (r.next x) loop) state' w) :
    Visits settings (fuel + 1) place scope (.count r x loop) state w
  | turn {fuel place scope test untested ss state w}
    (h : roundTest settings.palette scope test untested = .ok true)
    (hw : Visits settings fuel place scope (.body ss) state w) :
    Visits settings (fuel + 1) place scope (.repeated test untested ss) state w
  | laterTurn {fuel place scope test untested ss state css scope' state' w}
    (h : roundTest settings.palette scope test untested = .ok true)
    (hturn : (statements settings fuel place [] scope ss).run state = (.ok (css, scope'), state'))
    (hw : Visits settings fuel place scope' (.repeated test false ss) state' w) :
    Visits settings (fuel + 1) place scope (.repeated test untested ss) state w

namespace Visit
variable (settings : Settings σ)

/-- What comes of a visit. -/
def outcome (v : Visit σ) : Except Stop (List Css × Scope) × Status σ :=
  (Expand.statement settings v.fuel v.place v.scope v.statement).run v.state

/-- `v` opens a job that visits `w`. -/
def Opens (v w : Visit σ) : Prop :=
  ∃ fuel o state, v.fuel = fuel + 1 ∧
    (enter settings v.place v.scope v.statement).run v.state = (.ok (.opens o), state) ∧
    o.job.Visits settings fuel o.place o.scope state w

/-- A visit fails on its own: none of the visits that it opens fails. -/
def Raises (v : Visit σ) (stop : Stop) : Prop :=
  (v.outcome settings).1 = .error stop ∧
    ∀ w, v.Opens settings w → ∀ stop', (w.outcome settings).1 ≠ .error stop'

end Visit

variable {settings : Settings σ}

/-! ## A visit that fails stops the job -/

theorem Job.Visits.run_eq_error {fuel : Nat} {place : Place} {scope : Scope} {job : Job}
    {state state' : Status σ} {w : Visit σ} {stop : Stop}
    (h : job.Visits settings fuel place scope state w)
    (hw : w.outcome settings = (.error stop, state')) (done : List Css) :
    (job.run settings fuel place done scope).run state =
      (.error (stop.locate w.statement.pos), state') := by
  induction h generalizing done with
  | @here fuel place scope s rest state =>
    have hs : (statement settings fuel place scope s).run state = (.error stop, state') := hw
    rw [Job.run, statements, run_bind, run_locating, hs]
    rfl
  | later h _ ih =>
    rw [Job.run, statements, run_bind, run_locating, h]
    exact ih hw _
  | round h _ ih =>
    have hbody := ih hw []
    rw [Job.run] at hbody
    rw [Job.run, forRounds, if_pos h, run_bind, hbody]
  | laterRound h hround _ ih =>
    rw [Job.run, forRounds, if_pos h, run_bind, hround]
    exact ih hw _
  | turn h _ ih =>
    have hbody := ih hw []
    rw [Job.run] at hbody
    rw [run_repeated_succ, run_bind, run_lift, h]
    show ((_ >>= _ : Run (Status σ) _).run _) = _
    rw [run_bind, hbody]
  | laterTurn h hturn _ ih =>
    rw [run_repeated_succ, run_bind, run_lift, h]
    show ((_ >>= _ : Run (Status σ) _).run _) = _
    rw [run_bind, hturn]
    exact ih hw _

/-- A visit fails with the fault of a visit that it opens, placed there. -/
theorem Visit.Opens.outcome_eq_error {v w : Visit σ} {stop : Stop} (h : v.Opens settings w)
    (hw : (w.outcome settings).1 = .error stop) :
    (v.outcome settings).1 = .error (stop.locate w.statement.pos) ∧
      (v.outcome settings).2.importer = (w.outcome settings).2.importer := by
  obtain ⟨fuel, o, state₁, hfuel, henter, hvisits⟩ := h
  have hjob := hvisits.run_eq_error (Prod.ext hw rfl) []
  rw [Visit.outcome, hfuel, statement_succ, run_bind, henter]
  dsimp only
  rw [run_finish, hjob]
  exact ⟨rfl, o.importer_leave _⟩

/-- Every visit that is opened has less fuel. -/
theorem Job.Visits.fuel_lt {fuel : Nat} {place : Place} {scope : Scope} {job : Job}
    {state : Status σ} {w : Visit σ} (h : job.Visits settings fuel place scope state w) :
    w.fuel < fuel := by
  induction h with
  | here => exact Nat.lt_succ_self _
  | later _ _ ih | round _ _ ih | laterRound _ _ _ ih | turn _ _ ih | laterTurn _ _ _ ih =>
    exact Nat.lt_succ_of_lt ih

theorem Visit.Opens.fuel_lt {v w : Visit σ} (h : v.Opens settings w) : w.fuel < v.fuel := by
  obtain ⟨fuel, o, state₁, hfuel, -, hvisits⟩ := h
  rw [hfuel]
  exact Nat.lt_succ_of_lt hvisits.fuel_lt

/-! ## A job that fails does so in a visit or in a test -/

theorem bare_roundTest (palette : Script.Palette) (scope : Scope) (test : Text) (untested : Bool) :
    Outcome.HaltsBare (roundTest palette scope test untested) := by
  rw [roundTest]
  split
  · exact Outcome.endsIn_ok _
  · exact (Script.bare_evaluate _ test).map _

/-- The job of a loop with a test. -/
def Job.IsRepeated : Job → Prop
  | .repeated .. => True
  | .body _ | .count .. => False

/-- Where the fault of a job comes from. -/
def Job.Fails (settings : Settings σ) (fuel : Nat) (place : Place) (scope : Scope) (job : Job)
    (state : Status σ) (stop : Stop) : Prop :=
  (∃ w stop', job.Visits settings fuel place scope state w ∧
    (w.outcome settings).1 = .error stop') ∨ (job.IsRepeated ∧ stop.IsBare)

theorem Job.Fails.imp {fuel fuel' : Nat} {place : Place} {scope scope' : Scope} {job job' : Job}
    {state state' : Status σ} {stop : Stop} (h : job.Fails settings fuel place scope state stop)
    (hrepeated : job.IsRepeated → job'.IsRepeated)
    (hvisits : ∀ w, job.Visits settings fuel place scope state w →
      job'.Visits settings fuel' place scope' state' w) :
    job'.Fails settings fuel' place scope' state' stop := by
  rcases h with ⟨w, stop', hw, hstop⟩ | ⟨htest, hbare⟩
  · exact .inl ⟨w, stop', hvisits w hw, hstop⟩
  · exact .inr ⟨hrepeated htest, hbare⟩

theorem Job.fails_of_error {fuel : Nat} {place : Place} {done : List Css} {scope : Scope}
    {job : Job} {state state' : Status σ} {stop : Stop}
    (h : (job.run settings fuel place done scope).run state = (.error stop, state'))
    (hdry : stop ≠ .outOfFuel) : job.Fails settings fuel place scope state stop := by
  induction fuel generalizing done scope job state with
  | zero => cases job <;> cases h <;> exact absurd rfl hdry
  | succ fuel ih =>
    cases job with
    | body ss =>
      cases ss with
      | nil => cases h
      | cons s rest =>
        rw [Job.run, statements] at h
        rcases of_run_bind_error h with hs | ⟨⟨css, scope₁⟩, state₁, hs, hrest⟩
        · obtain ⟨stop₁, hstop, -⟩ := of_run_locating_error hs
          exact .inl ⟨_, stop₁, .here, congrArg Prod.fst hstop⟩
        · have hfails : (Job.body rest).Fails settings fuel place scope₁ state₁ stop := ih hrest
          exact hfails.imp id fun w => .later (of_run_locating_ok hs)
    | count r x loop =>
      rw [Job.run, forRounds] at h
      split at h
      · rename_i hruns
        rcases of_run_bind_error h with hround | ⟨⟨css, inner⟩, state₁, hround, hmore⟩
        · have hfails : (Job.body loop.2.2).Fails settings fuel place _ state stop := ih hround
          exact hfails.imp id fun w => .round hruns
        · have hfails : (Job.count r (r.next x) loop).Fails settings fuel place _ state₁ stop :=
            ih hmore
          exact hfails.imp id fun w => .laterRound hruns hround
      · cases h
    | repeated test untested ss =>
      rw [run_repeated_succ] at h
      rcases of_run_bind_error h with htest | ⟨goes, _, hlift, h⟩
      · -- the test of the loop itself
        obtain ⟨halt, hhalt, rfl⟩ := of_run_lift_error htest
        exact .inr ⟨⟨⟩, (Stop.isBare_ofHalt halt).2 (bare_roundTest _ _ _ _ halt hhalt)⟩
      · obtain ⟨htest, rfl⟩ := of_run_lift_ok hlift
        cases goes with
        | false => cases h
        | true =>
          rcases of_run_bind_error h with hturn | ⟨⟨css, scope₁⟩, state₁, hturn, hmore⟩
          · have hfails : (Job.body ss).Fails settings fuel place scope _ stop := ih hturn
            exact hfails.imp False.elim fun w => .turn htest
          · exact (ih hmore).imp id fun w => .laterTurn htest hturn

/-- Statements that fail do so in one of them, which gives the fault its position. -/
theorem exists_visit_of_error {fuel : Nat} {place : Place} {done : List Css} {scope : Scope}
    {body : List Statement} {state state' : Status σ} {stop : Stop}
    (h : (statements settings fuel place done scope body).run state = (.error stop, state'))
    (hdry : stop ≠ .outOfFuel) :
    ∃ w stop', (Job.body body).Visits settings fuel place scope state w ∧
      w.outcome settings = (.error stop', state') ∧ stop = stop'.locate w.statement.pos := by
  have hjob : ((Job.body body).run settings fuel place done scope).run state =
      (.error stop, state') := h
  rcases Job.fails_of_error hjob hdry with ⟨w, stop', hw, hstop⟩ | ⟨htest, -⟩
  · have houtcome : w.outcome settings = (.error stop', (w.outcome settings).2) :=
      Prod.ext hstop rfl
    have hrun := hw.run_eq_error houtcome done
    rw [hjob] at hrun
    cases hrun
    exact ⟨w, stop', hw, houtcome, rfl⟩
  · exact absurd htest id

/-! ## The innermost visit that fails -/

/-- **A visit that fails leads to one that fails on its own.** All visits on the way leave the
importer as that one does and end in what becomes of its stop. The induction is on the fuel. -/
theorem exists_raises {v : Visit σ} {stop : Stop} (h : (v.outcome settings).1 = .error stop) :
    ∃ w stop', ReflTransGen (Visit.Opens settings) v w ∧ w.Raises settings stop' ∧
      (w.outcome settings).2.importer = (v.outcome settings).2.importer ∧
      (stop'.locate w.statement.pos).Outward (stop.locate v.statement.pos) := by
  induction hfuel : v.fuel using Nat.strongRecOn generalizing v stop with
  | ind fuel ih =>
    subst hfuel
    by_cases hinner : ∃ w stop₁, v.Opens settings w ∧ (w.outcome settings).1 = .error stop₁
    · obtain ⟨w, stop₁, hopens, hw⟩ := hinner
      obtain ⟨hv, hstate⟩ := hopens.outcome_eq_error hw
      have hstop : stop = stop₁.locate w.statement.pos := by
        rw [h] at hv
        cases hv
        rfl
      obtain ⟨u, stop', hreach, hraises, hend, hout⟩ := ih w.fuel hopens.fuel_lt hw rfl
      rw [← hstop] at hout
      exact ⟨u, stop', .head hopens hreach, hraises, hend.trans hstate.symm, hout.tail ⟨_, rfl⟩⟩
    · exact ⟨v, stop, .refl, ⟨h, fun w hw stop' hstop => hinner ⟨w, stop', hw, hstop⟩⟩, rfl, .refl⟩

/-- **A source that cannot be expanded** has a statement that fails on its own, and the expansion
ends in what becomes of that failure. -/
theorem exists_raises_of_source {fuel : Nat} {file : Text} {src : Source} {start state : σ}
    {stop : Stop} (h : (source settings fuel file src).run start = (.error stop, state))
    (hdry : stop ≠ .outOfFuel) :
    ∃ v w stop', (Job.body src.body).Visits settings fuel ⟨[], [], file⟩ .empty
        (outset file start) v ∧
      ReflTransGen (Visit.Opens settings) v w ∧ w.Raises settings stop' ∧
      (w.outcome settings).2.importer = state ∧
      (stop'.locate w.statement.pos).Outward stop := by
  rw [run_source] at h
  rcases hrun : (statements settings fuel ⟨[], [], file⟩ [] .empty src.body).run
    (outset file start) with ⟨stop₁ | r, state₁⟩ <;> rw [hrun] at h <;> cases h
  obtain ⟨v, stop₂, hv, hfails, hstop⟩ := exists_visit_of_error hrun hdry
  obtain ⟨w, stop', hreach, hraises, hend, hout⟩ := exists_raises (congrArg Prod.fst hfails)
  rw [← hstop] at hout
  rw [hfails] at hend
  exact ⟨v, w, stop', hv, hreach, hraises, hend, hout⟩

/-! ## Promises along visits -/

namespace Promise
variable {p : Promise settings}

/-- Every visit of a job is in a state in which the promise holds, and its statement is vouched
for. -/
theorem visit_holds {fuel : Nat} {place : Place} {scope : Scope} {job : Job} {state : Status σ}
    {w : Visit σ} (h : job.Visits settings fuel place scope state w)
    (hstate : p.Holds state.importer scope) (hjob : ∀ t ∈ job.inside, p.Vouched state.importer t) :
    p.Holds w.state.importer w.scope ∧ p.Vouched w.state.importer w.statement := by
  induction h with
  | here => exact ⟨hstate, hjob _ List.mem_cons_self⟩
  | later hs _ ih =>
    have first := (run_kept _).1 hstate (hjob _ List.mem_cons_self) hs
    exact ih first.holds (first.vouched fun t ht => hjob t (List.mem_cons_of_mem _ ht))
  | round _ _ ih => exact ih ⟨hstate.sound, hstate.mixins.push.set _ _⟩ hjob
  | @laterRound fuel place scope r x loop state css inner state₁ w _ hround _ ih =>
    have round := (run_kept fuel).2 (.body loop.2.2)
      ⟨hstate.sound, hstate.mixins.push.set _ _⟩ hjob hround
    have hpop : inner.pop = scope := Scope.pop_eq_of_outer round.outer
    rw [hpop] at ih
    exact ih ⟨round.holds.sound, round.holds.mixins.around round.outer⟩ (round.vouched hjob)
  | turn _ _ ih => exact ih hstate hjob
  | @laterTurn fuel place scope test untested ss state css scope₁ state₁ w _ hturn _ ih =>
    have turn := (run_kept fuel).2 (.body ss) hstate hjob hturn
    exact ih turn.holds (turn.vouched hjob)

theorem opens_holds {v w : Visit σ} (h : v.Opens settings w)
    (hv : p.Holds v.state.importer v.scope) (hs : p.Vouched v.state.importer v.statement) :
    p.Holds w.state.importer w.scope ∧ p.Vouched w.state.importer w.statement := by
  obtain ⟨fuel, o, state₁, -, henter, hvisits⟩ := h
  have opened : p.Opened v.state.importer v.scope state₁.importer o := enter_kept hv hs henter
  exact visit_holds hvisits opened.holds opened.vouched

theorem reach_holds {v w : Visit σ} (h : ReflTransGen (Visit.Opens settings) v w)
    (hv : p.Holds v.state.importer v.scope) (hs : p.Vouched v.state.importer v.statement) :
    p.Holds w.state.importer w.scope ∧ p.Vouched w.state.importer w.statement := by
  induction h with
  | refl => exact ⟨hv, hs⟩
  | tail _ hlast ih => exact opens_holds hlast ih.1 ih.2

/-- A computation that keeps states sound and only makes them later, whatever comes of it. -/
def Steady (p : Promise settings) {α : Type} (m : Run σ α) : Prop :=
  ∀ s, p.Sound s → p.Sound (m.run s).2 ∧ p.Later s (m.run s).2

/-- As a relation between a computation and anything else, being steady respects the ways to build
a computation. -/
theorem compatible_steady (p : Promise settings) :
    Compatible fun _ α (m : Run σ α) (_ : Run σ α) => p.Steady m where
  pure _ s hs := ⟨hs, p.refl s⟩
  throw _ s hs := ⟨hs, p.refl s⟩
  bind := by
    intro _ α β m _ f _ hm hf s hs
    have first := hm s hs
    have hrun := run_bind m f s
    rcases hresult : m.run s with ⟨_ | a, s₁⟩
    · rw [hresult] at hrun first
      rw [hrun]
      exact first
    · rw [hresult] at hrun first
      rw [hrun]
      have rest := hf a s₁ first.1
      exact ⟨rest.1, p.trans first.2 rest.2⟩
  locating := by
    intro _ α m _ pos hm s hs
    rw [run_locating]
    exact hm s hs

theorem related_steady (p : Promise settings) :
    SettingsRelated (fun _ α (m : Run σ α) (_ : Run σ α) => p.Steady m) settings settings := by
  refine ⟨rfl, rfl, ?_⟩
  cases himporter : settings.importer with
  | none => exact .none
  | some importer =>
    refine .some (p.compatible_steady.loadingRelated fun uri file s hs => ?_)
    rw [run_loading]
    have load := p.load himporter hs uri file
    exact ⟨load.1, load.2.1⟩

/-- Whatever comes of a visit, the importer is in a later state, and a sound one. -/
theorem steady_visit (p : Promise settings) (v : Visit σ) (hv : p.Sound v.state.importer) :
    p.Sound (v.outcome settings).2.importer ∧
      p.Later v.state.importer (v.outcome settings).2.importer :=
  ((stackedAt p.compatible_steady p.related_steady v.fuel).statement v.place v.scope
    v.statement).related v.state.importing v.state.importer hv

theorem steady_source (p : Promise settings) (fuel : Nat) (file : Text) (src : Source) :
    p.Steady (source settings fuel file src) :=
  source_related p.compatible_steady p.related_steady fuel file src

end Promise

/-! ## The position to blame -/

/-- The branch whose test fails with `e`: the tests before it have been made and did not hold. -/
structure FirstFailing (ctx : Script.Context) (bs : List (Branch Statement))
    (b : Branch Statement) (e : Script.Halt) : Prop where
  split : ∃ before after, bs = before ++ b :: after ∧ ∀ x ∈ before, x.test.isEmpty = false ∧
    ∃ value, Script.evaluate ctx x.test = .ok value ∧ value.isTruthy = false
  test : b.test.isEmpty = false
  fails : Script.evaluate ctx b.test = .error e

/-- The position that a fault raised by a visit gets. -/
inductive Visit.Blames (settings : Settings σ) (v : Visit σ) (f : Fault) : Position → Prop
  /-- The fault came without a position: that of the statement. -/
  | own (h : f.IsBare) : Blames settings v f v.statement.pos
  /-- The test of a branch failed: the position of the branch. -/
  | branch {head more b e} (hs : v.statement = .choice head more)
    (hb : FirstFailing (v.scope.context settings.palette) (head :: more) b (.fault e))
    (hf : f = e.locate b.pos) : Blames settings v f b.pos

theorem chooseBranch_eq_error {ctx : Script.Context} {bs : List (Branch Statement)}
    {halt : Script.Halt} (h : chooseBranch ctx bs = .error halt) :
    ∃ b e, FirstFailing ctx bs b e ∧ halt = e.locate b.pos := by
  induction bs with
  | nil => cases h
  | cons b more ih =>
    rw [chooseBranch] at h
    split at h
    · cases h
    · rename_i htest
      have htest : b.test.isEmpty = false := Bool.eq_false_iff.mpr htest
      cases hvalue : Script.evaluate ctx b.test with
      | error e =>
        rw [hvalue] at h
        cases h
        exact ⟨b, e, ⟨⟨[], more, rfl, List.forall_mem_nil _⟩, htest, hvalue⟩, rfl⟩
      | ok value =>
        rw [hvalue] at h
        dsimp only at h
        split at h
        · cases h
        · rename_i hfalse
          obtain ⟨b', e, ⟨⟨before, after, rfl, hbefore⟩, htest', hfails⟩, rfl⟩ := ih h
          refine ⟨b', e, ⟨⟨b :: before, after, rfl, ?_⟩, htest', hfails⟩, rfl⟩
          intro x hx
          rcases List.mem_cons.mp hx with rfl | hx
          · exact ⟨htest, value, hvalue, Bool.eq_false_iff.mpr hfalse⟩
          · exact hbefore x hx

/-- The fault of an import: bare, or the one with which loading failed. -/
theorem importFile_eq_error {file uri : Text} {state state' : Status σ} {stop : Stop}
    (h : (importFile settings file uri).run state = (.error stop, state')) :
    stop.IsBare ∨ ∃ importer f, settings.importer = some importer ∧ stop = .fault f ∧
      importer.load uri file state.importer = (.error f, state'.importer) := by
  have hends := importEnds settings file uri state
  rw [h] at hends
  cases hends with
  | unequipped _ | circular _ _ _ => exact .inl rfl
  | unloaded himporter hload => exact .inr ⟨_, _, himporter, rfl, hload⟩

/-- What a statement can fail with when it is entered. -/
theorem enter_eq_error {place : Place} {scope : Scope} {s : Statement}
    {state state' : Status σ} {stop : Stop}
    (h : (enter settings place scope s).run state = (.error stop, state')) :
    stop.IsBare ∨
      (∃ head more halt, s = .choice head more ∧ stop = .ofHalt halt ∧
        chooseBranch (scope.context settings.palette) (head :: more) = .error halt) ∨
      ∃ pos uri importer f, s = .imports pos uri ∧ settings.importer = some importer ∧
        stop = .fault f ∧
        importer.load uri place.file state.importer = (.error f, state'.importer) := by
  have lifted {α : Type} {x : Except Script.Halt α} {s s' : Status σ} (hx : Outcome.HaltsBare x)
      (h : (lift x : Run (Status σ) α).run s = (.error stop, s')) : stop.IsBare := by
    obtain ⟨halt, hhalt, rfl⟩ := of_run_lift_error h
    exact (Stop.isBare_ofHalt halt).2 (hx halt hhalt)
  cases s with
  | rule pos selectors body =>
    rw [enter] at h
    rcases of_run_bind_error h with hlines | ⟨lines, _, -, h⟩
    · exact .inl (lifted (bare_selectorLines _ _ _) hlines)
    · cases h
  | property pos name value script body =>
    rw [enter] at h
    rcases of_run_bind_error h with hname | ⟨name, _, -, h⟩
    · exact .inl (lifted (Script.bare_interpolate _ _) hname)
    rcases of_run_bind_error h with hown | ⟨own, _, -, h⟩
    · refine .inl (lifted ?_ hown)
      split
      · exact Outcome.endsIn_ok _
      · exact (bare_propertyValue _ _ _).map _
    · cases h
  | assign pos name expr optional =>
    rw [enter] at h
    split at h
    · cases h
    rcases of_run_bind_error h with hvalue | ⟨value, _, -, h⟩
    · exact .inl (lifted (Script.bare_evaluate _ _) hvalue)
    · cases h
  | mixin pos name params body => cases h
  | call pos name args =>
    rw [enter] at h
    rcases of_run_bind_error h with hmixin | ⟨m, _, -, h⟩
    · exact .inl (lifted (bare_enterMixin _ _ _ _) hmixin)
    · cases h
  | imports pos uri =>
    rw [enter] at h
    split at h
    · cases h
    rcases of_run_bind_error h with hload | ⟨loaded, _, -, h⟩
    · rcases importFile_eq_error hload with hbare | ⟨importer, f, himporter, hstop, hload⟩
      · exact .inl hbare
      · exact .inr (.inr ⟨pos, uri, importer, f, rfl, himporter, hstop, hload⟩)
    · cases h
  | forLoop pos var first bound inclusive step body =>
    rw [enter] at h
    rcases of_run_bind_error h with hspan | ⟨r, _, -, h⟩
    · exact .inl (lifted (bare_span _ _ _ _ _) hspan)
    · cases h
  | choice head more =>
    rw [enter] at h
    rcases of_run_bind_error h with hbranch | ⟨branch, _, -, h⟩
    · obtain ⟨halt, hhalt, hstop⟩ := of_run_lift_error hbranch
      exact .inr (.inl ⟨head, more, halt, rfl, hstop, hhalt⟩)
    · cases branch <;> cases h
  | whileLoop pos test runsFirst body => cases h
  | directive pos text body =>
    rw [enter] at h
    rcases of_run_bind_error h with htext | ⟨text, _, -, h⟩
    · exact .inl (lifted (Script.bare_interpolate _ _) htext)
    · cases h
  | comment pos lines => cases h

/-- A visit that fails on its own does so when it is entered, or in the test of its loop. -/
theorem Visit.Raises.isBare_or {v : Visit σ} {stop : Stop} (h : v.Raises settings stop)
    (hdry : stop ≠ .outOfFuel) :
    stop.IsBare ∨
      (∃ head more halt, v.statement = .choice head more ∧ stop = .ofHalt halt ∧
        chooseBranch (v.scope.context settings.palette) (head :: more) = .error halt) ∨
      ∃ pos uri importer f, v.statement = .imports pos uri ∧ settings.importer = some importer ∧
        stop = .fault f ∧
        importer.load uri v.place.file v.state.importer =
          (.error f, (v.outcome settings).2.importer) := by
  obtain ⟨hfails, hinner⟩ := h
  obtain ⟨state', hrun⟩ : ∃ state', v.outcome settings = (.error stop, state') :=
    ⟨_, Prod.ext hfails rfl⟩
  rw [hrun]
  cases hfuel : v.fuel with
  | zero =>
    rw [Visit.outcome, hfuel, statement] at hrun
    cases hrun
    exact absurd rfl hdry
  | succ fuel =>
    rw [Visit.outcome, hfuel, statement_succ] at hrun
    rcases of_run_bind_error hrun with henter | ⟨turn, state₁, henter, hfinish⟩
    · exact enter_eq_error henter
    · -- nothing that is opened fails, so only the test of a loop is left
      cases turn with
      | done css scope => cases hfinish
      | opens o =>
        obtain ⟨state₂, hjob, -⟩ := of_run_finish_error hfinish
        rcases Job.fails_of_error hjob hdry with ⟨w, stop', hw, hstop⟩ | ⟨-, hbare⟩
        · exact absurd hstop (hinner w ⟨fuel, o, state₁, hfuel, henter, hw⟩ stop')
        · exact .inl hbare

/-- **Whom a raised fault blames**, unless it came from loading a file. -/
theorem Visit.Raises.blames {v : Visit σ} {f : Fault} (h : v.Raises settings (.fault f))
    (hbranch : ∀ head more, v.statement = .choice head more →
      ∀ b ∈ head :: more, b.pos.isNone = false) :
    (∃ pos, v.Blames settings f pos ∧ (f.locate v.statement.pos).pos? = some pos) ∨
      ∃ pos uri importer, v.statement = .imports pos uri ∧ settings.importer = some importer ∧
        importer.load uri v.place.file v.state.importer =
          (.error f, (v.outcome settings).2.importer) := by
  rcases h.isBare_or nofun with hbare | ⟨head, more, halt, hs, hstop, hchoose⟩ | hload
  · have hbare : f.IsBare := hbare
    exact .inl ⟨_, .own hbare, hbare.pos?_locate _⟩
  · obtain ⟨b, e | _, hfirst, rfl⟩ := chooseBranch_eq_error hchoose
    · cases hstop
      have hb : b ∈ head :: more := by
        obtain ⟨before, after, hsplit, -⟩ := hfirst.split
        rw [hsplit]
        exact List.mem_append_right _ List.mem_cons_self
      have hbare : e.IsBare := Script.bare_evaluate _ _ (.fault e) hfirst.fails
      exact .inl ⟨b.pos, .branch hs hfirst rfl, Fault.pos?_locate_of_placed
        (hbare.pos?_locate b.pos) (hbranch head more hs b hb) _⟩
    · cases hstop
  · obtain ⟨pos, uri, importer, g, hs, himporter, hstop, hload⟩ := hload
    cases hstop
    exact .inr ⟨pos, uri, importer, hs, himporter, hload⟩

end IndentedSass.Expand
