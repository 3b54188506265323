import IndentedSass.Expand
import Mathlib.Data.Option.Basic

/-!
# Expansions in lockstep

An expansion reaches the outside world through its importer only. So whatever relation between
computations respects the ways to build one (`Compatible`), and is passed on by imports
(`ImportsRelated`), holds between two expansions of the same statements: `relatedAt`. The induction
is on the fuel and is made once for all such relations. A relation may depend on the file whose
statements are expanded; imports then lead from one file to the next.

Statements work on the stack of files as well as on the state of the importer. `Stacked` carries a
relation between computations on such states over to statements, and says of the stack that they
leave it as they found it (`Restores`). So a relation holds between two expansions if it is passed
on by the loads of their importers: `source_related`.

`Alike` is the relation for importers that give the same answers from related states, and end in
related states again: two expansions that differ in such importers have the same result and end in
related states (`source_alike`).
-/

namespace IndentedSass.Expand
variable {σ τ α β : Type}

/-! ## Running -/

theorem run_bind (m : Run σ α) (f : α → Run σ β) (s : σ) :
    (m >>= f).run s = match m.run s with
      | (.ok a, s) => (f a).run s
      | (.error stop, s) => (.error stop, s) := by
  simp only [bind, ExceptT.run, ExceptT.bind, ExceptT.mk, StateT.bind, ExceptT.bindCont]
  rcases m s with ⟨_ | _, _⟩ <;> rfl

theorem run_locating (pos : Position) (m : Run σ α) (s : σ) :
    (locating pos m).run s = ((m.run s).1.mapError (Stop.locate pos), (m.run s).2) := by
  simp only [locating, tryCatch, tryCatchThe, MonadExceptOf.tryCatch, ExceptT.tryCatch,
    ExceptT.run, ExceptT.mk, bind, StateT.bind]
  rcases m s with ⟨_ | _, _⟩ <;> rfl

theorem run_loading (importer : Importer σ) (uri file : Text) (s : σ) :
    (loading importer uri file).run s =
      ((importer.load uri file s).1.mapError .fault, (importer.load uri file s).2) := by
  simp only [loading, ExceptT.run]
  rcases importer.load uri file s with ⟨_ | _, _⟩ <;> rfl

theorem run_closing (m : Run (Status σ) α) (s : Status σ) :
    (closing m).run s = ((m.run s).1, (m.run s).2.closed) := rfl

theorem run_onStack (files : List Text) (m : Run (Status σ) α) (s : σ) :
    (onStack files m).run s = ((m.run ⟨files, s⟩).1, (m.run ⟨files, s⟩).2.importer) := rfl

/-- A path that is on the stack is refused, any other comes onto it. -/
theorem run_pushing (file path : Text) (s : Status σ) :
    (pushing file path).run s =
      if path ∈ s.importing then
        (.error (.fault (.of .importNotFound
          ("circular import of " ++ path ++ " from " ++ file))), s)
      else (.ok (), s.opened path) := by
  show (if s.importing.contains path then fail _ else modify (Status.opened path) :
    Run (Status σ) Unit).run s = _
  simp only [List.contains_iff_mem]
  split <;> rfl

/-- What an import can come to: there is no importer, or it has no file, or the file is on the
stack, or the file is loaded and put there. -/
inductive ImportEnds (settings : Settings σ) (file uri : Text) (s : Status σ) :
    Except Stop (Source × Text) × Status σ → Prop
  | unequipped (h : settings.importer = none) : ImportEnds settings file uri s
      (.error (.fault (.language .importNotFound ("no importer for " ++ uri) .none
        (some .notFound))), s)
  | unloaded {importer : Importer σ} {f : Fault} {state : σ}
      (h : settings.importer = some importer)
      (hload : importer.load uri file s.importer = (.error f, state)) :
      ImportEnds settings file uri s (.error (.fault f), ⟨s.importing, state⟩)
  | circular {importer : Importer σ} {source : Source} {path : Text} {state : σ}
      (h : settings.importer = some importer)
      (hload : importer.load uri file s.importer = (.ok (source, path), state))
      (hmem : path ∈ s.importing) : ImportEnds settings file uri s
        (.error (.fault (.of .importNotFound
          ("circular import of " ++ path ++ " from " ++ file))), ⟨s.importing, state⟩)
  | opened {importer : Importer σ} {source : Source} {path : Text} {state : σ}
      (h : settings.importer = some importer)
      (hload : importer.load uri file s.importer = (.ok (source, path), state))
      (hmem : path ∉ s.importing) :
      ImportEnds settings file uri s (.ok (source, path), ⟨path :: s.importing, state⟩)

theorem run_asking_loading (importer : Importer σ) (uri file : Text) (s : Status σ) :
    (asking (loading importer uri file)).run s =
      ((importer.load uri file s.importer).1.mapError .fault,
        ⟨s.importing, (importer.load uri file s.importer).2⟩) := by
  show (((loading importer uri file).run s.importer).1,
    (⟨s.importing, ((loading importer uri file).run s.importer).2⟩ : Status σ)) = _
  rw [run_loading]

theorem importEnds (settings : Settings σ) (file uri : Text) (s : Status σ) :
    ImportEnds settings file uri s ((importFile settings file uri).run s) := by
  cases h : settings.importer with
  | none =>
    rw [importFile, h]
    exact .unequipped h
  | some importer =>
    rw [importFile, h]
    dsimp only
    rw [run_bind, run_asking_loading]
    rcases hload : importer.load uri file s.importer with ⟨_ | ⟨source, path⟩, state⟩
    · exact .unloaded h hload
    · dsimp only [Except.mapError]
      rw [run_bind, run_pushing]
      by_cases hmem : path ∈ s.importing
      · rw [if_pos hmem]
        exact .circular h hload hmem
      · rw [if_neg hmem]
        exact .opened h hload hmem

/-! ## The stack -/

/-- The stack is the same afterwards, however the computation ends. -/
def Restores (m : Run (Status σ) α) : Prop := ∀ s, (m.run s).2.importing = s.importing

theorem Restores.bind {m : Run (Status σ) α} {f : α → Run (Status σ) β} (h : Restores m)
    (hf : ∀ a, Restores (f a)) : Restores (m >>= f) := by
  intro s
  have hm := h s
  rw [run_bind]
  rcases hrun : m.run s with ⟨_ | a, s'⟩ <;> rw [hrun] at hm
  · exact hm
  · exact (hf a s').trans hm

theorem Restores.locating {m : Run (Status σ) α} (h : Restores m) (pos : Position) :
    Restores (locating pos m) := by
  intro s
  rw [run_locating]
  exact h s

/-- **An import restores the stack** if what is done with the file does: the path that it pushes is
the one that is taken off. -/
theorem Restores.importing {k : Source × Text → Run (Status σ) α} (h : ∀ r, Restores (k r))
    (settings : Settings σ) (file uri : Text) :
    Restores (importFile settings file uri >>= fun r => closing (k r)) := by
  intro s
  have hends := importEnds settings file uri s
  rw [run_bind]
  generalize (importFile settings file uri).run s = r at hends
  cases hends with
  | unequipped _ | unloaded _ _ | circular _ _ _ => rfl
  | @opened _ source path state _ _ _ =>
    show ((k (source, path)).run ⟨path :: s.importing, state⟩).2.importing.tail = s.importing
    rw [h]
    rfl

/-- A computation that restores the stack may be followed by another one on the same stack. -/
theorem onStack_bind {m : Run (Status σ) α} (h : Restores m) (f : α → Run (Status σ) β)
    (files : List Text) :
    onStack files (m >>= f) = onStack files m >>= fun a => onStack files (f a) := by
  funext s
  show (onStack files (m >>= f)).run s = (onStack files m >>= fun a => onStack files (f a)).run s
  have hm := h ⟨files, s⟩
  rw [run_onStack, run_bind, run_bind, run_onStack]
  generalize m.run ⟨files, s⟩ = r at hm ⊢
  rcases r with ⟨_ | a, stack, s'⟩
  · rfl
  · obtain rfl : stack = files := hm
    rfl

theorem onStack_locating (pos : Position) (m : Run (Status σ) α) (files : List Text) :
    onStack files (locating pos m) = locating pos (onStack files m) := by
  funext s
  show (onStack files (locating pos m)).run s = (locating pos (onStack files m)).run s
  rw [run_onStack, run_locating, run_locating, run_onStack]

/-- What an import amounts to for the importer: it is asked for a file, and unless that is on the
stack, what is done with the file goes on with it on the stack. -/
theorem onStack_importing {settings : Settings σ} {importer : Importer σ}
    (h : settings.importer = some importer) (file uri : Text)
    (k : Source × Text → Run (Status σ) α) (files : List Text) :
    onStack files (importFile settings file uri >>= fun r => closing (k r)) =
      loading importer uri file >>= fun r =>
        if r.2 ∈ files then
          throw (.fault (.of .importNotFound ("circular import of " ++ r.2 ++ " from " ++ file)))
        else onStack (r.2 :: files) (k r) := by
  funext s
  show (onStack files (importFile settings file uri >>= fun r => closing (k r))).run s =
    (loading importer uri file >>= fun r => _).run s
  have hends := importEnds settings file uri ⟨files, s⟩
  rw [run_onStack, run_bind, run_bind, run_loading]
  generalize (importFile settings file uri).run ⟨files, s⟩ = r at hends
  cases hends with
  | unequipped hnone =>
    rw [h] at hnone
    cases hnone
  | unloaded hsome hload =>
    obtain rfl := Option.some.inj (h.symm.trans hsome)
    rw [show importer.load uri file s = _ from hload]
    rfl
  | circular hsome hload hmem =>
    obtain rfl := Option.some.inj (h.symm.trans hsome)
    rw [show importer.load uri file s = _ from hload]
    dsimp only [Except.mapError]
    rw [if_pos hmem]
    rfl
  | opened hsome hload hmem =>
    obtain rfl := Option.some.inj (h.symm.trans hsome)
    rw [show importer.load uri file s = _ from hload]
    dsimp only [Except.mapError]
    rw [if_neg hmem]
    rfl

/-! ## Relations between computations -/

/-- A relation between computations, within a file, that respects the ways to build one. -/
structure Compatible (P : Text → ∀ α : Type, Run σ α → Run τ α → Prop) : Prop where
  pure : ∀ {file : Text} {α : Type} (a : α), P file α (pure a) (pure a)
  throw : ∀ {file : Text} {α : Type} (stop : Stop), P file α (throw stop) (throw stop)
  bind : ∀ {file : Text} {α β : Type} {m : Run σ α} {n : Run τ α} {f : α → Run σ β}
    {g : α → Run τ β}, P file α m n → (∀ a, P file β (f a) (g a)) → P file β (m >>= f) (n >>= g)
  locating : ∀ {file : Text} {α : Type} {m : Run σ α} {n : Run τ α} (pos : Position),
    P file α m n → P file α (locating pos m) (locating pos n)

/-- Imports lead from an importing file to the imported one: what is related there, is related here
when it is done with the file. -/
def ImportsRelated (P : Text → ∀ α : Type, Run (Status σ) α → Run (Status τ) α → Prop)
    (a : Settings σ) (b : Settings τ) : Prop :=
  ∀ (file uri : Text) {α : Type} {k : Source × Text → Run (Status σ) α}
    {k' : Source × Text → Run (Status τ) α},
    (∀ source path, P path α (k (source, path)) (k' (source, path))) →
    P file α (importFile a file uri >>= fun r => closing (k r))
      (importFile b file uri >>= fun r => closing (k' r))

/-- A relation that does not depend on the file may be restricted to certain files. -/
theorem Compatible.within {P : ∀ α : Type, Run σ α → Run τ α → Prop} (hP : Compatible fun _ => P)
    (Near : Text → Prop) : Compatible fun file α m n => Near file → P α m n where
  pure a := fun _ => @Compatible.pure _ _ _ hP [] _ a
  throw stop := fun _ => @Compatible.throw _ _ _ hP [] _ stop
  bind h hf := fun hfile => @Compatible.bind _ _ _ hP [] _ _ _ _ _ _ (h hfile) fun a => hf a hfile
  locating pos h := fun hfile => @Compatible.locating _ _ _ hP [] _ _ _ pos (h hfile)

section Related
variable {P : Text → ∀ α : Type, Run σ α → Run τ α → Prop} (hP : Compatible P) {file : Text}
include hP

theorem Compatible.lift (x : Except Script.Halt α) : P file α (lift x) (lift x) := by
  cases x with
  | ok a => exact hP.pure a
  | error halt => exact hP.throw (.ofHalt halt)

theorem Compatible.map {m : Run σ α} {n : Run τ α} (hmn : P file α m n) (f : α → β) :
    P file β (f <$> m) (f <$> n) := by
  rw [map_eq_pure_bind, map_eq_pure_bind]
  exact hP.bind hmn fun a => hP.pure (f a)

end Related

/-! ## Statements -/

/-- What the induction on the fuel carries, for the four functions at once. -/
structure RelatedAt (P : Text → ∀ α : Type, Run (Status σ) α → Run (Status τ) α → Prop)
    (a : Settings σ) (b : Settings τ) (fuel : Nat) : Prop where
  statements : ∀ place done scope body, P place.file _
    (statements a fuel place done scope body) (statements b fuel place done scope body)
  statement : ∀ place scope s, P place.file _
    (statement a fuel place scope s) (statement b fuel place scope s)
  forRounds : ∀ place done scope r x loop, P place.file _
    (forRounds a fuel place done scope r x loop) (forRounds b fuel place done scope r x loop)
  whileRounds : ∀ place done scope test untested body, P place.file _
    (whileRounds a fuel place done scope test untested body)
    (whileRounds b fuel place done scope test untested body)

section Statements
variable {P : Text → ∀ α : Type, Run (Status σ) α → Run (Status τ) α → Prop} (hP : Compatible P)
  {a : Settings σ} {b : Settings τ} {fuel : Nat}
include hP

theorem relatedAt_zero : RelatedAt P a b 0 where
  statements _ _ _ _ := by
    rw [Expand.statements, Expand.statements]
    exact hP.throw _
  statement _ _ _ := by
    rw [Expand.statement, Expand.statement]
    exact hP.throw _
  forRounds _ _ _ _ _ _ := by
    rw [Expand.forRounds, Expand.forRounds]
    exact hP.throw _
  whileRounds _ _ _ _ _ _ := by
    rw [Expand.whileRounds, Expand.whileRounds]
    exact hP.throw _

theorem RelatedAt.statements_succ (ih : RelatedAt P a b fuel) (place : Place) (done : List Css)
    (scope : Scope) (body : List Statement) :
    P place.file _ (Expand.statements a (fuel + 1) place done scope body)
      (Expand.statements b (fuel + 1) place done scope body) := by
  cases body with
  | nil =>
    rw [Expand.statements, Expand.statements]
    exact hP.pure _
  | cons s rest =>
    rw [Expand.statements, Expand.statements]
    refine hP.bind (hP.locating s.pos (ih.statement place scope s)) ?_
    rintro ⟨css, scope⟩
    exact ih.statements place (css.reverse ++ done) scope rest

theorem RelatedAt.forRounds_succ (ih : RelatedAt P a b fuel) (place : Place) (done : List Css)
    (scope : Scope) (r : Span Float) (x : Float) (loop : Text × Text × List Statement) :
    P place.file _ (Expand.forRounds a (fuel + 1) place done scope r x loop)
      (Expand.forRounds b (fuel + 1) place done scope r x loop) := by
  rw [Expand.forRounds, Expand.forRounds]
  split
  · refine hP.bind (ih.statements place [] _ loop.2.2) ?_
    rintro ⟨css, inner⟩
    exact ih.forRounds place (css.reverse ++ done) inner.pop r (r.next x) loop
  · exact hP.pure _

theorem RelatedAt.whileRounds_succ (hpalette : a.palette = b.palette) (ih : RelatedAt P a b fuel)
    (place : Place) (done : List Css) (scope : Scope) (test : Text) (untested : Bool)
    (body : List Statement) :
    P place.file _ (Expand.whileRounds a (fuel + 1) place done scope test untested body)
      (Expand.whileRounds b (fuel + 1) place done scope test untested body) := by
  have round (goes : Bool) : P place.file _
      (if goes then Expand.statements a fuel place [] scope body >>= fun x =>
        Expand.whileRounds a fuel place (x.1.reverse ++ done) x.2 test false body
      else pure (done.reverse, scope))
      (if goes then Expand.statements b fuel place [] scope body >>= fun x =>
        Expand.whileRounds b fuel place (x.1.reverse ++ done) x.2 test false body
      else pure (done.reverse, scope)) := by
    split
    · refine hP.bind (ih.statements place [] scope body) ?_
      rintro ⟨css, scope⟩
      exact ih.whileRounds place (css.reverse ++ done) scope test false body
    · exact hP.pure _
  rw [Expand.whileRounds, Expand.whileRounds, hpalette]
  split
  · exact hP.bind (hP.pure true) round
  · exact hP.bind (hP.map (hP.lift _) _) round

theorem RelatedAt.statement_succ (hpalette : a.palette = b.palette)
    (hvendors : a.vendors = b.vendors) (himports : ImportsRelated P a b)
    (ih : RelatedAt P a b fuel) (place : Place) (scope : Scope) (s : Statement) :
    P place.file _ (Expand.statement a (fuel + 1) place scope s)
      (Expand.statement b (fuel + 1) place scope s) := by
  cases s with
  | rule pos selectors body =>
    rw [Expand.statement, Expand.statement, hpalette]
    refine hP.bind (hP.lift _) fun lines => hP.bind
      (ih.statements { place with selectors := lines.flatten, lead := [] } [] scope body) ?_
    rintro ⟨css, scope⟩
    exact hP.pure _
  | property pos name value script body =>
    rw [Expand.statement, Expand.statement, hpalette, hvendors]
    refine hP.bind (hP.lift _) fun name => hP.bind (hP.lift _) fun own =>
      hP.bind (ih.statements { place with lead := place.lead ++ name ++ "-" } [] scope body) ?_
    rintro ⟨css, scope⟩
    exact hP.pure _
  | assign pos name expr optional =>
    rw [Expand.statement, Expand.statement, hpalette]
    split
    · exact hP.pure _
    · exact hP.bind (hP.lift _) fun v => hP.pure _
  | mixin pos name params body =>
    rw [Expand.statement, Expand.statement]
    exact hP.pure _
  | call pos name args =>
    rw [Expand.statement, Expand.statement, hpalette]
    refine hP.bind (hP.lift _) ?_
    rintro ⟨m, inner⟩
    refine hP.bind (ih.statements place [] inner m.body) ?_
    rintro ⟨css, inner⟩
    exact hP.pure _
  | imports pos uri =>
    rw [Expand.statement, Expand.statement]
    split
    · exact hP.pure _
    -- the one place where the importer is asked
    · exact himports place.file uri fun source path =>
        ih.statements ⟨_, _, path⟩ [] scope source.body
  | forLoop pos var first bound inclusive step body =>
    rw [Expand.statement, Expand.statement, hpalette]
    refine hP.bind (hP.lift _) ?_
    rintro ⟨r, unit⟩
    exact ih.forRounds place [] scope r r.first ⟨var, unit, body⟩
  | choice head more =>
    rw [Expand.statement, Expand.statement, hpalette]
    refine hP.bind (hP.lift _) ?_
    rintro (_ | branch)
    · exact hP.pure _
    · exact ih.statements place [] scope branch.body
  | whileLoop pos test runsFirst body =>
    rw [Expand.statement, Expand.statement]
    exact ih.whileRounds place [] scope test runsFirst body
  | directive pos text body =>
    rw [Expand.statement, Expand.statement, hpalette]
    refine hP.bind (hP.lift _) fun text => hP.bind (ih.statements place [] scope body) ?_
    rintro ⟨css, scope⟩
    exact hP.pure _
  | comment pos lines =>
    rw [Expand.statement, Expand.statement]
    exact hP.pure _

/-- **Statements are related** if imports are. -/
theorem relatedAt (hpalette : a.palette = b.palette) (hvendors : a.vendors = b.vendors)
    (himports : ImportsRelated P a b) (fuel : Nat) : RelatedAt P a b fuel := by
  induction fuel with
  | zero => exact relatedAt_zero hP
  | succ fuel ih =>
    exact ⟨ih.statements_succ hP, ih.statement_succ hP hpalette hvendors himports,
      ih.forRounds_succ hP, ih.whileRounds_succ hP hpalette⟩

end Statements

/-! ## Expansions -/

/-- Two computations restore the stack and are related on any stack. -/
structure Stacked (P : Text → ∀ α : Type, Run σ α → Run τ α → Prop) (file : Text) (α : Type)
    (m : Run (Status σ) α) (n : Run (Status τ) α) : Prop where
  left : Restores m
  right : Restores n
  related : ∀ files, P file α (onStack files m) (onStack files n)

/-- Loading leads from an importing file to the imported one: what is related there, is related
here when it follows the load. -/
def LoadingRelated (P : Text → ∀ α : Type, Run σ α → Run τ α → Prop) (x : Importer σ)
    (y : Importer τ) : Prop :=
  ∀ (uri file : Text) {α : Type} {k : Source × Text → Run σ α} {k' : Source × Text → Run τ α},
    (∀ source path, P path α (k (source, path)) (k' (source, path))) →
    P file α (loading x uri file >>= k) (loading y uri file >>= k')

/-- Two settings differ at most in their importers, and loading is related. -/
structure SettingsRelated (P : Text → ∀ α : Type, Run σ α → Run τ α → Prop) (a : Settings σ)
    (b : Settings τ) : Prop where
  palette : a.palette = b.palette
  vendors : a.vendors = b.vendors
  importer : Option.Rel (LoadingRelated P) a.importer b.importer

/-- A relation that does not depend on the file has to hold between the loads. -/
theorem Compatible.loadingRelated {P : ∀ α : Type, Run σ α → Run τ α → Prop}
    (hP : Compatible fun _ => P) {x : Importer σ} {y : Importer τ}
    (h : ∀ uri file, P _ (loading x uri file) (loading y uri file)) :
    LoadingRelated (fun _ => P) x y :=
  fun uri file _ _ _ hk =>
    @Compatible.bind _ _ _ hP file _ _ _ _ _ _ (h uri file) fun r => hk r.1 r.2

section Expansions
variable {P : Text → ∀ α : Type, Run σ α → Run τ α → Prop} (hP : Compatible P) {a : Settings σ}
  {b : Settings τ} (h : SettingsRelated P a b)
include hP

theorem compatible_stacked : Compatible (Stacked P) where
  pure x := ⟨fun _ => rfl, fun _ => rfl, fun _ => hP.pure x⟩
  throw stop := ⟨fun _ => rfl, fun _ => rfl, fun _ => hP.throw stop⟩
  bind hmn hfg := by
    refine ⟨hmn.left.bind fun x => (hfg x).left, hmn.right.bind fun x => (hfg x).right, ?_⟩
    intro files
    rw [onStack_bind hmn.left, onStack_bind hmn.right]
    exact hP.bind (hmn.related files) fun x => (hfg x).related files
  locating pos hmn := by
    refine ⟨hmn.left.locating pos, hmn.right.locating pos, fun files => ?_⟩
    rw [onStack_locating, onStack_locating]
    exact hP.locating pos (hmn.related files)

include h

theorem importsRelated_stacked : ImportsRelated (Stacked P) a b := by
  intro file uri α k k' hk
  refine ⟨Restores.importing (fun r => (hk r.1 r.2).left) a file uri,
    Restores.importing (fun r => (hk r.1 r.2).right) b file uri, fun files => ?_⟩
  have himporter := h.importer
  cases ha : a.importer with
  | none =>
    rw [ha] at himporter
    cases hb : b.importer with
    | none =>
      rw [importFile, importFile, ha, hb]
      exact hP.throw _
    | some y =>
      rw [hb] at himporter
      cases himporter
  | some x =>
    rw [ha] at himporter
    cases hb : b.importer with
    | none =>
      rw [hb] at himporter
      cases himporter
    | some y =>
      rw [hb] at himporter
      obtain ⟨hload⟩ := himporter
      rw [onStack_importing ha, onStack_importing hb]
      refine hload uri file fun source path => ?_
      dsimp only
      split
      · exact hP.throw _
      · exact (hk source path).related (path :: files)

theorem stackedAt (fuel : Nat) : RelatedAt (Stacked P) a b fuel :=
  relatedAt (compatible_stacked hP) h.palette h.vendors (importsRelated_stacked hP h) fuel

/-- **Expansions with related importers are related.** -/
theorem source_related (fuel : Nat) (file : Text) (src : Source) :
    P file _ (source a fuel file src) (source b fuel file src) := by
  rw [source, source]
  have hbody := (stackedAt hP h fuel).statements ⟨[], [], file⟩ [] .empty src.body
  exact ((compatible_stacked hP).bind hbody fun r => (compatible_stacked hP).pure r.1).related _

end Expansions

/-- **Every statement leaves the stack as it found it**, and so do the rounds of loops. That takes
no relation at all: the one that always holds is carried over like any other. -/
theorem restoring (settings : Settings σ) (fuel : Nat) :
    RelatedAt (Stacked fun _ α (_ : Run σ α) (_ : Run σ α) => True) settings settings fuel := by
  have hall : Compatible fun _ α (_ : Run σ α) (_ : Run σ α) => True :=
    ⟨fun _ => ⟨⟩, fun _ => ⟨⟩, fun _ _ => ⟨⟩, fun _ _ => ⟨⟩⟩
  refine stackedAt hall ⟨rfl, rfl, ?_⟩ fuel
  cases settings.importer with
  | none => exact .none
  | some importer => exact .some fun _ _ _ _ _ _ => ⟨⟩

/-! ## The same answers from related states -/

section Alike
variable {R : σ → τ → Prop}

/-- From related states, two computations have the same result and end in related states. -/
def Alike (R : σ → τ → Prop) (m : Run σ α) (n : Run τ α) : Prop :=
  ∀ s t, R s t → (m.run s).1 = (n.run t).1 ∧ R (m.run s).2 (n.run t).2

theorem Alike.bind {m : Run σ α} {n : Run τ α} {f : α → Run σ β} {g : α → Run τ β}
    (h : Alike R m n) (hf : ∀ a, Alike R (f a) (g a)) : Alike R (m >>= f) (n >>= g) := by
  intro s t hst
  have hmn := h s t hst
  rw [run_bind, run_bind]
  rcases hm : m.run s with ⟨result, s'⟩
  rcases hn : n.run t with ⟨result', t'⟩
  rw [hm, hn] at hmn
  obtain ⟨rfl, hst'⟩ := hmn
  cases result with
  | ok a => exact hf a s' t' hst'
  | error stop => exact ⟨rfl, hst'⟩

theorem Alike.locating {m : Run σ α} {n : Run τ α} (h : Alike R m n) (pos : Position) :
    Alike R (locating pos m) (locating pos n) := by
  intro s t hst
  obtain ⟨hresult, hstate⟩ := h s t hst
  rw [run_locating, run_locating, hresult]
  exact ⟨rfl, hstate⟩

theorem compatible_alike (R : σ → τ → Prop) : Compatible fun _ _ m n => Alike R m n where
  pure _ := fun _ _ h => ⟨rfl, h⟩
  throw _ := fun _ _ h => ⟨rfl, h⟩
  bind := Alike.bind
  locating pos h := h.locating pos

/-- Two importers give the same answers from related states and keep states related. -/
def ImportersAlike (R : σ → τ → Prop) (a : Importer σ) (b : Importer τ) : Prop :=
  ∀ uri file s t, R s t →
    (a.load uri file s).1 = (b.load uri file t).1 ∧ R (a.load uri file s).2 (b.load uri file t).2

/-- Two settings differ at most in their importers, and those are alike. -/
structure SettingsAlike (R : σ → τ → Prop) (a : Settings σ) (b : Settings τ) : Prop where
  palette : a.palette = b.palette
  vendors : a.vendors = b.vendors
  importer : Option.Rel (ImportersAlike R) a.importer b.importer

theorem alike_loading {a : Importer σ} {b : Importer τ} (h : ImportersAlike R a b)
    (uri file : Text) : Alike R (loading a uri file) (loading b uri file) := by
  intro s t hst
  have hload := h uri file s t hst
  simp only [loading, ExceptT.run]
  rcases ha : a.load uri file s with ⟨result, s'⟩
  rcases hb : b.load uri file t with ⟨result', t'⟩
  rw [ha, hb] at hload
  obtain ⟨rfl, hst'⟩ := hload
  cases result with
  | ok loaded => exact ⟨rfl, hst'⟩
  | error f => exact ⟨rfl, hst'⟩

/-- Importers that are alike for requests from near files, and name near files only. -/
theorem loadingRelated_within {Near : Text → Prop} {x : Importer σ} {y : Importer τ}
    (h : ∀ uri file, Near file → ∀ s t, R s t →
      (x.load uri file s).1 = (y.load uri file t).1 ∧
      R (x.load uri file s).2 (y.load uri file t).2 ∧
      ∀ source path, (y.load uri file t).1 = .ok (source, path) → Near path) :
    LoadingRelated (fun file _ m n => Near file → Alike R m n) x y := by
  intro uri file α k k' hk hfile s t hst
  obtain ⟨hanswer, hstates, hpath⟩ := h uri file hfile s t hst
  rw [run_bind, run_bind]
  simp only [loading, ExceptT.run]
  rcases hx : x.load uri file s with ⟨answer, s'⟩
  rcases hy : y.load uri file t with ⟨answer', t'⟩
  rw [hx, hy] at hanswer hstates
  rw [hy] at hpath
  obtain rfl : answer = answer' := hanswer
  rcases answer with f | ⟨source, path⟩
  · exact ⟨rfl, hstates⟩
  · exact hk source path (hpath source path rfl) s' t' hstates

theorem SettingsAlike.related {a : Settings σ} {b : Settings τ} (h : SettingsAlike R a b) :
    SettingsRelated (fun _ _ m n => Alike R m n) a b := by
  refine ⟨h.palette, h.vendors, ?_⟩
  have himporter := h.importer
  generalize a.importer = x, b.importer = y at himporter
  cases himporter with
  | none => exact .none
  | some hload => exact .some ((compatible_alike R).loadingRelated (alike_loading hload))

/-- **Expansions with alike importers are alike.** -/
theorem source_alike {a : Settings σ} {b : Settings τ} (h : SettingsAlike R a b) (fuel : Nat)
    (file : Text) (src : Source) : Alike R (source a fuel file src) (source b fuel file src) :=
  source_related (compatible_alike R) h.related fuel file src

end Alike

end IndentedSass.Expand
