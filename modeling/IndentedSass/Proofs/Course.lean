import IndentedSass.Proofs.Lockstep

/-!
# The course of an expansion

Expanding a statement falls into two parts. The statement is *entered*: its own expressions are
evaluated, and an imported file is loaded and put on the stack. Then it is done, or it has one job
left, the statements nested in it or the rounds of a loop, and closes when the job has ended; an
imported file is then taken off the stack. `enter` is the first part and `Turn.finish` the second;
`statement_succ` says that they make up the whole. Facts about expansions are proved for `enter`
statement by statement, and then for jobs once and for all.
-/

namespace IndentedSass

/-- The statements right beneath a statement, those of all its branches for a choice. -/
def Statement.nested : Statement → List Statement
  | .rule _ _ body | .property _ _ _ _ body | .mixin _ _ _ body | .forLoop _ _ _ _ _ _ body
  | .whileLoop _ _ _ body | .directive _ _ body => body
  | .choice head more => (head :: more).flatMap Branch.body
  | .assign .. | .call .. | .imports .. | .comment .. => []

namespace Expand
variable {σ α β : Type}

/-! ## Running -/

theorem run_pure (a : α) (s : σ) : (pure a : Run σ α).run s = (.ok a, s) := rfl

theorem run_throw (stop : Stop) (s : σ) : (throw stop : Run σ α).run s = (.error stop, s) := rfl

theorem run_lift (x : Except Script.Halt α) (s : σ) :
    (lift x : Run σ α).run s = (x.mapError .ofHalt, s) := by
  cases x <;> rfl

theorem run_map (f : α → β) (m : Run σ α) (s : σ) :
    (f <$> m).run s = ((m.run s).1.map f, (m.run s).2) := by
  rw [map_eq_pure_bind, run_bind]
  rcases m.run s with ⟨_ | _, _⟩ <;> rfl

/-- A computation that ended well has done so step by step. -/
theorem of_run_bind_ok {m : Run σ α} {f : α → Run σ β} {s s' : σ} {b : β}
    (h : (m >>= f).run s = (.ok b, s')) :
    ∃ a s₁, m.run s = (.ok a, s₁) ∧ (f a).run s₁ = (.ok b, s') := by
  rw [run_bind] at h
  rcases hm : m.run s with ⟨_ | a, s₁⟩ <;> rw [hm] at h
  · cases h
  · exact ⟨a, s₁, rfl, h⟩

/-- A computation that stopped has done so in one of its steps. -/
theorem of_run_bind_error {m : Run σ α} {f : α → Run σ β} {s s' : σ} {stop : Stop}
    (h : (m >>= f).run s = (.error stop, s')) :
    m.run s = (.error stop, s') ∨
      ∃ a s₁, m.run s = (.ok a, s₁) ∧ (f a).run s₁ = (.error stop, s') := by
  rw [run_bind] at h
  rcases hm : m.run s with ⟨_ | a, s₁⟩ <;> rw [hm] at h
  · cases h
    exact .inl rfl
  · exact .inr ⟨a, s₁, rfl, h⟩

theorem of_run_lift_ok {x : Except Script.Halt α} {s s' : σ} {a : α}
    (h : (lift x : Run σ α).run s = (.ok a, s')) : x = .ok a ∧ s' = s := by
  rw [run_lift] at h
  cases x with
  | ok b => cases h; exact ⟨rfl, rfl⟩
  | error f => cases h

theorem of_run_lift_error {x : Except Script.Halt α} {s s' : σ} {stop : Stop}
    (h : (lift x : Run σ α).run s = (.error stop, s')) :
    ∃ halt, x = .error halt ∧ stop = .ofHalt halt := by
  rw [run_lift] at h
  cases x with
  | ok b => cases h
  | error halt =>
    cases h
    exact ⟨halt, rfl, rfl⟩

theorem of_run_locating_error {pos : Position} {m : Run σ α} {s s' : σ} {stop : Stop}
    (h : (locating pos m).run s = (.error stop, s')) :
    ∃ stop₁, m.run s = (.error stop₁, s') ∧ stop = stop₁.locate pos := by
  rw [run_locating] at h
  rcases hm : m.run s with ⟨stop₁ | b, s₁⟩ <;> rw [hm] at h <;> cases h
  exact ⟨stop₁, rfl, rfl⟩

theorem of_run_locating_ok {pos : Position} {m : Run σ α} {s s' : σ} {a : α}
    (h : (locating pos m).run s = (.ok a, s')) : m.run s = (.ok a, s') := by
  rw [run_locating] at h
  rcases hm : m.run s with ⟨_ | b, s₁⟩ <;> rw [hm] at h
  · cases h
  · cases h
    rfl

/-! ## Entering a statement -/

/-- What goes on inside a statement. -/
inductive Job where
  | body (statements : List Statement)
  /-- The rounds of a counting loop from a value on. -/
  | count (r : Span Float) (x : Float) (loop : Text × Text × List Statement)
  /-- The rounds of a loop with a test. -/
  | repeated (test : Text) (untested : Bool) (statements : List Statement)

/-- The statements that a job expands. -/
def Job.inside : Job → List Statement
  | .body ss => ss
  | .count _ _ loop => loop.2.2
  | .repeated _ _ ss => ss

/-- Runs a job. -/
def Job.run (settings : Settings σ) (fuel : Nat) (place : Place) (done : List Css) (scope : Scope) :
    Job → Run (Status σ) (List Css × Scope)
  | .body ss => statements settings fuel place done scope ss
  | .count r x loop => forRounds settings fuel place done scope r x loop
  | .repeated test untested ss => whileRounds settings fuel place done scope test untested ss

/-- Whether a loop with a test goes on to another round. -/
def roundTest (palette : Script.Palette) (scope : Scope) (test : Text) (untested : Bool) :
    Except Script.Halt Bool :=
  if untested then .ok true else (Script.evaluate (scope.context palette) test).map (·.isTruthy)

/-- Each round of a loop with a test comes after the test. -/
theorem run_repeated_succ (settings : Settings σ) (fuel : Nat) (place : Place) (done : List Css)
    (scope : Scope) (test : Text) (untested : Bool) (ss : List Statement) :
    (Job.repeated test untested ss).run settings (fuel + 1) place done scope = do
      let goes ← lift (roundTest settings.palette scope test untested)
      if goes then
        let r ← statements settings fuel place [] scope ss
        (Job.repeated test false ss).run settings fuel place (r.1.reverse ++ done) r.2
      else return (done.reverse, scope) := by
  rw [Job.run, whileRounds, roundTest]
  cases untested with
  | true => rfl
  | false =>
    rw [if_neg Bool.false_ne_true, if_neg Bool.false_ne_true]
    cases Script.evaluate (scope.context settings.palette) test <;> rfl

/-- A job, where it is run, and what is made of its outcome. -/
structure Opening where
  place : Place
  scope : Scope
  job : Job
  close : List Css × Scope → List Css × Scope
  /-- Whether the job is to expand a file that the statement imports. -/
  imported : Bool

/-- What becomes of a statement that is entered. -/
inductive Turn where
  | done (css : List Css) (scope : Scope)
  | opens (o : Opening)

/-- What a statement does on its own. -/
def enter (settings : Settings σ) (place : Place) (scope : Scope) (s : Statement) :
    Run (Status σ) Turn :=
  let ctx := scope.context settings.palette
  match s with
  | .rule _ selectors body => do
    let lines ← lift (selectorLines ctx place.selectors selectors)
    return .opens ⟨{ place with selectors := lines.flatten, lead := [] }, scope, .body body,
      fun r => ([.rule lines r.1], r.2), false⟩
  | .property _ name value script body => do
    let name ← lift (Script.interpolate ctx name)
    let name := place.lead ++ name
    let own ← lift (if Statement.isNamespace value then .ok []
      else (propertyValue ctx value script).map (declarations settings.vendors name))
    return .opens ⟨{ place with lead := name ++ "-" }, scope, .body body,
      fun r => (own ++ r.1, r.2), false⟩
  | .assign _ name expr optional =>
    if optional && scope.has name then return .done [] scope
    else do
      let v ← lift (Script.evaluate ctx expr)
      return .done [] (scope.set name v)
  | .mixin pos name params body => return .done [] (scope.addMixin ⟨pos, name, params, body⟩)
  | .call _ name args => do
    let (m, inner) ← lift (enterMixin settings.palette scope name args)
    return .opens ⟨place, inner, .body m.body, fun r => (r.1, r.2.pop.merge r.2.inner), false⟩
  | .imports _ uri =>
    if Statement.isPlainImport uri then return .done [.directive ("@import " ++ uri) []] scope
    else do
      let (source, path) ← importFile settings place.file uri
      return .opens ⟨{ place with file := path }, scope, .body source.body, id, true⟩
  | .forLoop _ var first bound inclusive step body => do
    let (r, unit) ← lift (span ctx first bound step inclusive)
    return .opens ⟨place, scope, .count r r.first ⟨var, unit, body⟩, id, false⟩
  | .choice head more => do
    match ← lift (chooseBranch ctx (head :: more)) with
    | none => return .done [] scope
    | some b => return .opens ⟨place, scope, .body b.body, id, false⟩
  | .whileLoop _ test runsFirst body =>
    return .opens ⟨place, scope, .repeated test runsFirst body, id, false⟩
  | .directive _ text body => do
    let text ← lift (Script.interpolate ctx text)
    return .opens ⟨place, scope, .body body, fun r => ([.directive text r.1], r.2), false⟩
  | .comment _ lines => return .done [.comment lines] scope

/-- Runs the job; an imported file is taken off the stack when it has ended. -/
def Opening.run (settings : Settings σ) (fuel : Nat) (o : Opening) :
    Run (Status σ) (List Css × Scope) :=
  if o.imported then closing (o.job.run settings fuel o.place [] o.scope)
  else o.job.run settings fuel o.place [] o.scope

/-- Runs the job that is left, if any, and closes. -/
def Turn.finish (settings : Settings σ) (fuel : Nat) : Turn → Run (Status σ) (List Css × Scope)
  | .done css scope => pure (css, scope)
  | .opens o => o.close <$> o.run settings fuel

/-- **A statement is entered and then finished.** -/
theorem statement_succ (settings : Settings σ) (fuel : Nat) (place : Place) (scope : Scope)
    (s : Statement) :
    statement settings (fuel + 1) place scope s =
      enter settings place scope s >>= Turn.finish settings fuel := by
  cases s with
  | rule pos selectors body =>
    rw [statement, enter, bind_assoc]
    simp only [pure_bind, Turn.finish, Opening.run, Job.run, map_eq_pure_bind,
      Bool.false_eq_true, if_false]
  | property pos name value script body =>
    rw [statement, enter, bind_assoc]
    simp only [bind_assoc, pure_bind, Turn.finish, Opening.run, Job.run, map_eq_pure_bind,
      Bool.false_eq_true, if_false]
  | assign pos name expr optional =>
    rw [statement, enter]
    split
    · rw [pure_bind]
      rfl
    · simp only [bind_assoc, pure_bind, Turn.finish]
  | mixin pos name params body =>
    rw [statement, enter, pure_bind]
    rfl
  | call pos name args =>
    rw [statement, enter, bind_assoc]
    simp only [pure_bind, Turn.finish, Opening.run, Job.run, map_eq_pure_bind,
      Bool.false_eq_true, if_false]
  | imports pos uri =>
    rw [statement, enter]
    split
    · rw [pure_bind]
      rfl
    · simp only [bind_assoc, pure_bind, Turn.finish, Opening.run, Job.run, id_map, if_true]
  | forLoop pos var first bound inclusive step body =>
    rw [statement, enter, bind_assoc]
    simp only [pure_bind, Turn.finish, Opening.run, Job.run, id_map, Bool.false_eq_true, if_false]
  | choice head more =>
    rw [statement, enter, bind_assoc]
    refine bind_congr fun branch => ?_
    cases branch with
    | none =>
      rw [pure_bind]
      rfl
    | some b =>
      simp only [pure_bind, Turn.finish, Opening.run, Job.run, id_map, Bool.false_eq_true, if_false]
  | whileLoop pos test runsFirst body =>
    rw [statement, enter, pure_bind, Turn.finish, Opening.run, if_neg Bool.false_ne_true, Job.run,
      id_map]
  | directive pos text body =>
    rw [statement, enter, bind_assoc]
    simp only [pure_bind, Turn.finish, Opening.run, Job.run, map_eq_pure_bind,
      Bool.false_eq_true, if_false]
  | comment pos lines =>
    rw [statement, enter, pure_bind]
    rfl

/-! ## Leaving a statement -/

/-- The status in which a statement is left whose job has ended. -/
def Opening.leave (o : Opening) (s : Status σ) : Status σ := if o.imported then s.closed else s

@[simp] theorem Opening.importer_leave (o : Opening) (s : Status σ) :
    (o.leave s).importer = s.importer := by
  rw [leave]
  split <;> rfl

/-- A statement ends as its job does. -/
theorem run_finish (settings : Settings σ) (fuel : Nat) (o : Opening) (s : Status σ) :
    ((Turn.opens o).finish settings fuel).run s =
      (((o.job.run settings fuel o.place [] o.scope).run s).1.map o.close,
        o.leave ((o.job.run settings fuel o.place [] o.scope).run s).2) := by
  rw [Turn.finish, run_map, Opening.run, Opening.leave]
  split <;> rfl

theorem of_run_finish_ok {settings : Settings σ} {fuel : Nat} {o : Opening} {s s' : Status σ}
    {r : List Css × Scope} (h : ((Turn.opens o).finish settings fuel).run s = (.ok r, s')) :
    ∃ css inner s₁, (o.job.run settings fuel o.place [] o.scope).run s = (.ok (css, inner), s₁) ∧
      r = o.close (css, inner) ∧ s' = o.leave s₁ := by
  rw [run_finish] at h
  rcases hjob : (o.job.run settings fuel o.place [] o.scope).run s with ⟨_ | ⟨css, inner⟩, s₁⟩ <;>
    rw [hjob] at h <;> cases h
  exact ⟨css, inner, s₁, rfl, rfl, rfl⟩

theorem of_run_finish_error {settings : Settings σ} {fuel : Nat} {o : Opening} {s s' : Status σ}
    {stop : Stop} (h : ((Turn.opens o).finish settings fuel).run s = (.error stop, s')) :
    ∃ s₁, (o.job.run settings fuel o.place [] o.scope).run s = (.error stop, s₁) ∧
      s' = o.leave s₁ := by
  rw [run_finish] at h
  rcases hjob : (o.job.run settings fuel o.place [] o.scope).run s with ⟨_ | r, s₁⟩ <;>
    rw [hjob] at h <;> cases h
  exact ⟨s₁, rfl, rfl⟩

/-! ## Sources -/

/-- The status in which a source is expanded. -/
def outset (file : Text) (start : σ) : Status σ := ⟨if file.isEmpty then [] else [file], start⟩

/-- An expansion does what its statements do. -/
theorem run_source (settings : Settings σ) (fuel : Nat) (file : Text) (src : Source) (start : σ) :
    (source settings fuel file src).run start =
      (((statements settings fuel ⟨[], [], file⟩ [] .empty src.body).run
          (outset file start)).1.map Prod.fst,
        ((statements settings fuel ⟨[], [], file⟩ [] .empty src.body).run
          (outset file start)).2.importer) := by
  rw [source, run_onStack, run_bind, outset]
  rcases (statements settings fuel ⟨[], [], file⟩ [] .empty src.body).run
    ⟨if file.isEmpty then [] else [file], start⟩ with ⟨_ | _, _⟩ <;> rfl

end Expand

end IndentedSass
