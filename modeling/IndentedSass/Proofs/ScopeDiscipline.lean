import IndentedSass.Proofs.Course
import IndentedSass.Proofs.Outcome

/-!
# What an expansion does to scopes

A statement may bind names in the innermost frame of its scope and nowhere else: loops and mixins
run in frames of their own, which are gone when they end. A mixin hands its bindings to its caller,
but never over a name that the caller knows.

The same induction over the course of an expansion also shows where statements come from: a
statement that is expanded is nested in one that is, or was loaded, or is in the body of a mixin
that was defined before. `Promise` says what has to be known of loaded statements for something to
hold of all of them; `Promise.run_kept` is the induction.
-/

namespace IndentedSass

/-! ## Scopes -/

namespace Bindings
variable {α : Type} {b : Bindings α}

theorem mem_of_get? {name : Text} {v : α} (h : b.get? name = some v) : (name, v) ∈ b := by
  obtain ⟨before, after, rfl, -⟩ := List.lookup_eq_some_iff.1 h
  simp

theorem mem_set {name : Text} {v : α} {e : Text × α} (h : e ∈ b.set name v) :
    e = (name, v) ∨ e ∈ b := by
  induction b with
  | nil => exact .inl (List.mem_singleton.1 h)
  | cons first rest ih =>
    rw [set] at h
    split at h
    · exact (List.mem_cons.1 h).imp_right (List.mem_cons_of_mem _)
    · obtain rfl | h := List.mem_cons.1 h
      · exact .inr List.mem_cons_self
      · exact (ih h).imp_right (List.mem_cons_of_mem _)

end Bindings

namespace Scope
variable {s s' : Scope} {P : Mixin → Prop}

theorem get?_set (s : Scope) (name : Text) (v : Script.Value) (key : Text) :
    (s.set name v).get? key = if key = name then some v else s.get? key := by
  simp only [get?, frames, set, List.findSome?_cons, Bindings.get?_set]
  by_cases h : key = name <;> simp [h]

theorem mixin?_addMixin (s : Scope) (m : Mixin) (key : Text) :
    (s.addMixin m).mixin? key = if key = m.name then some m else s.mixin? key := by
  simp only [mixin?, frames, addMixin, List.findSome?_cons, Bindings.get?_set]
  by_cases h : key = m.name <;> simp [h]

/-- `s'` is `s` with more names in its innermost frame: what was known means the same. -/
structure Extends (s s' : Scope) : Prop where
  outer : s'.outer = s.outer
  vars : ∀ x v, s.get? x = some v → s'.get? x = some v
  mixins : ∀ x m, s.mixin? x = some m → s'.mixin? x = some m

theorem Extends.refl (s : Scope) : s.Extends s := ⟨rfl, fun _ _ => id, fun _ _ => id⟩

theorem Extends.trans {s₁ s₂ s₃ : Scope} (h : s₁.Extends s₂) (h' : s₂.Extends s₃) :
    s₁.Extends s₃ :=
  ⟨h'.outer.trans h.outer, fun x v hx => h'.vars x v (h.vars x v hx),
    fun x m hx => h'.mixins x m (h.mixins x m hx)⟩

theorem extends_setNew (s : Scope) (e : Text × Script.Value) : s.Extends (s.setNew e) := by
  rw [setNew]
  split
  · exact .refl s
  · rename_i unknown
    refine ⟨rfl, fun x v hx => ?_, fun _ _ hx => hx⟩
    have hne : x ≠ e.1 := by
      rintro rfl
      exact unknown (by rw [has, hx]; rfl)
    rw [get?_set, if_neg hne, hx]

theorem extends_addNewMixin (s : Scope) (m : Mixin) : s.Extends (s.addNewMixin m) := by
  rw [addNewMixin]
  split
  · exact .refl s
  · rename_i unknown
    refine ⟨rfl, fun _ _ hx => hx, fun x n hx => ?_⟩
    have hne : x ≠ m.name := by
      rintro rfl
      exact unknown (by rw [hx]; rfl)
    rw [mixin?_addMixin, if_neg hne, hx]

theorem extends_foldl {ε : Type} {step : Scope → ε → Scope} (h : ∀ s e, Extends s (step s e))
    (es : List ε) (s : Scope) : s.Extends (es.foldl step s) := by
  induction es generalizing s with
  | nil => exact .refl s
  | cons e es ih => exact (h s e).trans (ih _)

/-- **Taking over the bindings of a frame replaces nothing.** -/
theorem extends_merge (s : Scope) (f : Frame) : s.Extends (s.merge f) :=
  (extends_foldl extends_setNew f.vars s).trans (extends_foldl extends_addNewMixin _ _)

/-- A frame is gone without a trace when the frames around it are as they were. -/
theorem pop_eq_of_outer (h : s'.outer = s.frames) : s'.pop = s := by
  rw [pop, h, frames]

/-- Every mixin of the scope, those that are shadowed included, has the property. -/
def EachMixin (P : Mixin → Prop) (s : Scope) : Prop := ∀ f ∈ s.frames, ∀ e ∈ f.mixins, P e.2

theorem eachMixin_empty : empty.EachMixin P := by
  intro f hf e he
  obtain rfl := List.mem_singleton.1 hf
  cases he

theorem EachMixin.mono {Q : Mixin → Prop} (h : ∀ m, P m → Q m) (hs : s.EachMixin P) :
    s.EachMixin Q :=
  fun f hf e he => h e.2 (hs f hf e he)

theorem EachMixin.of_mixin? {name : Text} {m : Mixin} (hs : s.EachMixin P)
    (h : s.mixin? name = some m) : P m := by
  obtain ⟨f, hf, hm⟩ := List.exists_of_findSome?_eq_some h
  exact hs f hf _ (Bindings.mem_of_get? hm)

/-- What counts is which mixins the innermost frame has and what stands around it. -/
theorem EachMixin.of_inner (hs : s.EachMixin P) (houter : s'.outer = s.outer)
    (h : ∀ e ∈ s'.inner.mixins, P e.2) : s'.EachMixin P := by
  intro f hf
  obtain rfl | hf := List.mem_cons.1 hf
  · exact h
  · exact hs f (List.mem_cons_of_mem _ (houter ▸ hf))

theorem EachMixin.inner (hs : s.EachMixin P) : ∀ e ∈ s.inner.mixins, P e.2 :=
  hs s.inner List.mem_cons_self

theorem EachMixin.set (hs : s.EachMixin P) (name : Text) (v : Script.Value) :
    (s.set name v).EachMixin P :=
  hs.of_inner rfl hs.inner

theorem EachMixin.addMixin (hs : s.EachMixin P) {m : Mixin} (hm : P m) :
    (s.addMixin m).EachMixin P := by
  refine hs.of_inner rfl fun e he => ?_
  obtain rfl | he := Bindings.mem_set he
  · exact hm
  · exact hs.inner e he

theorem EachMixin.push (hs : s.EachMixin P) : s.push.EachMixin P := by
  intro f hf
  obtain rfl | hf := List.mem_cons.1 hf
  · exact fun e he => absurd he List.not_mem_nil
  · exact hs f hf

theorem EachMixin.around (hs : s.EachMixin P) (h : s.outer = s'.frames) : s'.EachMixin P :=
  fun f hf => hs f (List.mem_cons_of_mem _ (h ▸ hf))

theorem EachMixin.merge (hs : s.EachMixin P) {f : Frame} (hf : ∀ e ∈ f.mixins, P e.2) :
    (s.merge f).EachMixin P := by
  have vars : ∀ (es : Bindings Script.Value) (s : Scope), s.EachMixin P →
      (es.foldl setNew s).EachMixin P := by
    intro es
    induction es with
    | nil => exact fun _ => id
    | cons e es ih =>
      refine fun s hs => ih _ ?_
      rw [setNew]
      split
      · exact hs
      · exact hs.set e.1 e.2
  have mixins : ∀ (ms : List Mixin) (s : Scope), (∀ m ∈ ms, P m) → s.EachMixin P →
      (ms.foldl addNewMixin s).EachMixin P := by
    intro ms
    induction ms with
    | nil => exact fun _ _ => id
    | cons m ms ih =>
      refine fun s hms hs => ih _ (fun n hn => hms n (List.mem_cons_of_mem _ hn)) ?_
      rw [addNewMixin]
      split
      · exact hs
      · exact hs.addMixin (hms m List.mem_cons_self)
  refine mixins _ _ (fun m hm => ?_) (vars f.vars s hs)
  obtain ⟨e, he, rfl⟩ := List.mem_map.1 hm
  exact hf e he

end Scope

namespace Expand
variable {σ : Type}

/-! ## The scope of a mixin -/

/-- Binding parameters defines variables only. -/
theorem bindParams_frames {palette : Script.Palette} {m : Mixin} {caller : Scope}
    {params : List Param} {args : List Text} {scope inner : Scope}
    (h : bindParams palette m caller scope params args = .ok inner) :
    inner.outer = scope.outer ∧ inner.inner.mixins = scope.inner.mixins := by
  induction params generalizing scope args with
  | nil =>
    cases h
    exact ⟨rfl, rfl⟩
  | cons p params ih =>
    cases args with
    | nil =>
      rw [bindParams] at h
      split at h
      · cases h
      · split at h
        · have ⟨outer, mixins⟩ := ih h
          exact ⟨outer, mixins⟩
        · cases h
    | cons arg args =>
      rw [bindParams] at h
      split at h
      · have ⟨outer, mixins⟩ := ih h
        exact ⟨outer, mixins⟩
      · cases h

/-- A mixin runs in a frame of its own on top of the scope of its caller. -/
theorem enterMixin_eq_ok {palette : Script.Palette} {scope inner : Scope} {name : Text}
    {args : List Text} {m : Mixin} (h : enterMixin palette scope name args = .ok (m, inner)) :
    scope.mixin? name = some m ∧ inner.outer = scope.frames ∧ inner.inner.mixins = [] := by
  rw [enterMixin] at h
  split at h
  · cases h
  · rename_i m' hm
    split at h
    · cases h
    · obtain ⟨inner', hbind, h⟩ := Outcome.of_bind_eq_ok h
      cases h
      exact ⟨hm, bindParams_frames hbind⟩

theorem mem_of_chooseBranch {ctx : Script.Context} {bs : List (Branch Statement)}
    {b : Branch Statement} (h : chooseBranch ctx bs = .ok (some b)) : b ∈ bs := by
  induction bs with
  | nil => cases h
  | cons c more ih =>
    rw [chooseBranch] at h
    split at h
    · cases h
      exact List.mem_cons_self
    · split at h
      · split at h
        · cases h
          exact List.mem_cons_self
        · exact List.mem_cons_of_mem _ (ih h)
      · cases h

/-! ## Promises -/

/-- Something that holds of every statement of an expansion. Whether a statement is vouched for may
depend on the state of the importer, but once it is, it stays so. -/
structure Promise (settings : Settings σ) where
  Sound : σ → Prop
  Later : σ → σ → Prop
  Vouched : σ → Statement → Prop
  refl : ∀ a, Later a a
  trans : ∀ {a b c}, Later a b → Later b c → Later a c
  mono : ∀ {a b t}, Later a b → Vouched a t → Vouched b t
  nested : ∀ {a t}, Vouched a t → ∀ u ∈ t.nested, Vouched a u
  load : ∀ {importer a}, settings.importer = some importer → Sound a → ∀ uri file,
    Sound (importer.load uri file a).2 ∧ Later a (importer.load uri file a).2 ∧
      ∀ src path, (importer.load uri file a).1 = .ok (src, path) →
        ∀ t ∈ src.body, Vouched (importer.load uri file a).2 t

/-- Nothing is promised. -/
def Promise.trivial (settings : Settings σ) : Promise settings where
  Sound _ := True
  Later _ _ := True
  Vouched _ _ := True
  refl _ := ⟨⟩
  trans _ _ := ⟨⟩
  mono _ _ := ⟨⟩
  nested _ _ _ := ⟨⟩
  load _ _ _ _ := ⟨⟨⟩, ⟨⟩, fun _ _ _ _ _ => ⟨⟩⟩

namespace Promise
variable {settings : Settings σ} (p : Promise settings)

/-- What has to hold where statements are expanded: mixins that were defined earlier are vouched
for too. -/
structure Holds (state : σ) (scope : Scope) : Prop where
  sound : p.Sound state
  mixins : scope.EachMixin fun m => ∀ t ∈ m.body, p.Vouched state t

/-- What is known after something was expanded. -/
structure Kept (state : σ) (scope : Scope) (state' : σ) (scope' : Scope) : Prop where
  later : p.Later state state'
  holds : p.Holds state' scope'
  outer : scope'.outer = scope.outer

/-- What is known of a statement that was entered. -/
structure Opened (state : σ) (scope : Scope) (state' : σ) (o : Opening) : Prop where
  later : p.Later state state'
  holds : p.Holds state' o.scope
  vouched : ∀ t ∈ o.job.inside, p.Vouched state' t
  close : ∀ css {inner state''}, inner.outer = o.scope.outer → p.Holds state'' inner →
    p.Holds state'' (o.close (css, inner)).2 ∧ (o.close (css, inner)).2.outer = scope.outer

/-- What is known when a statement was entered. -/
def Turned (state : σ) (scope : Scope) (state' : σ) : Turn → Prop
  | .done _ scope' => p.Kept state scope state' scope'
  | .opens o => p.Opened state scope state' o

variable {p} {state state' : σ} {scope scope' : Scope}

theorem Kept.refl (h : p.Holds state scope) : p.Kept state scope state scope :=
  ⟨p.refl state, h, rfl⟩

theorem Kept.trans {state'' : σ} {scope'' : Scope} (h : p.Kept state scope state' scope')
    (h' : p.Kept state' scope' state'' scope'') : p.Kept state scope state'' scope'' :=
  ⟨p.trans h.later h'.later, h'.holds, h'.outer.trans h.outer⟩

theorem Kept.vouched {ss : List Statement} (h : p.Kept state scope state' scope')
    (hss : ∀ t ∈ ss, p.Vouched state t) : ∀ t ∈ ss, p.Vouched state' t :=
  fun t ht => p.mono h.later (hss t ht)

/-- A statement whose body runs in the scope that it stands in. -/
theorem Opened.inPlace {o : Opening} (hscope : o.scope = scope) (hclose : ∀ r, (o.close r).2 = r.2)
    (later : p.Later state state') (h : p.Holds state' scope)
    (vouched : ∀ t ∈ o.job.inside, p.Vouched state' t) : p.Opened state scope state' o := by
  subst hscope
  refine ⟨later, h, vouched, fun css inner _ outer holds => ?_⟩
  rw [hclose]
  exact ⟨holds, outer⟩

/-- Loading a file keeps the promise, whether it succeeds or not. -/
theorem importFile_kept {status : Status σ} (h : p.Sound status.importer) (file uri : Text) :
    p.Sound ((importFile settings file uri).run status).2.importer ∧
      p.Later status.importer ((importFile settings file uri).run status).2.importer ∧
      ∀ src path, ((importFile settings file uri).run status).1 = .ok (src, path) →
        ∀ t ∈ src.body, p.Vouched ((importFile settings file uri).run status).2.importer t := by
  have hends := importEnds settings file uri status
  generalize (importFile settings file uri).run status = r at hends
  cases hends with
  | unequipped _ => exact ⟨h, p.refl _, fun _ _ h => by cases h⟩
  | unloaded himporter hload | circular himporter hload _ =>
    have load := p.load himporter h uri file
    rw [hload] at load
    exact ⟨load.1, load.2.1, fun _ _ h => by cases h⟩
  | opened himporter hload _ =>
    have load := p.load himporter h uri file
    rw [hload] at load
    refine ⟨load.1, load.2.1, fun src path h => ?_⟩
    cases h
    exact load.2.2 _ _ rfl

/-- The step: what a statement does on its own keeps the promise. -/
theorem enter_kept {place : Place} {s : Statement} {turn : Turn} {status status' : Status σ}
    (h : p.Holds status.importer scope) (hs : p.Vouched status.importer s)
    (hrun : (enter settings place scope s).run status = (.ok turn, status')) :
    p.Turned status.importer scope status'.importer turn := by
  have nested := p.nested hs
  cases s with
  | rule pos selectors body =>
    rw [enter] at hrun
    obtain ⟨lines, _, hlines, hend⟩ := of_run_bind_ok hrun
    obtain ⟨-, rfl⟩ := of_run_lift_ok hlines
    cases hend
    exact .inPlace rfl (fun _ => rfl) (p.refl _) h nested
  | property pos name value script body =>
    rw [enter] at hrun
    obtain ⟨name, _, hname, hrest⟩ := of_run_bind_ok hrun
    obtain ⟨-, rfl⟩ := of_run_lift_ok hname
    obtain ⟨own, _, hown, hend⟩ := of_run_bind_ok hrest
    obtain ⟨-, rfl⟩ := of_run_lift_ok hown
    cases hend
    exact .inPlace rfl (fun _ => rfl) (p.refl _) h nested
  | assign pos name expr optional =>
    rw [enter] at hrun
    split at hrun
    · cases hrun
      exact .refl h
    · obtain ⟨v, _, hv, hend⟩ := of_run_bind_ok hrun
      obtain ⟨-, rfl⟩ := of_run_lift_ok hv
      cases hend
      exact ⟨p.refl _, ⟨h.sound, h.mixins.set name v⟩, rfl⟩
  | mixin pos name params body =>
    cases hrun
    exact ⟨p.refl _, ⟨h.sound, h.mixins.addMixin nested⟩, rfl⟩
  | call pos name args =>
    rw [enter] at hrun
    obtain ⟨⟨m, inner⟩, _, hlift, hend⟩ := of_run_bind_ok hrun
    obtain ⟨hm, rfl⟩ := of_run_lift_ok hlift
    obtain ⟨known, outer, empty⟩ := enterMixin_eq_ok hm
    cases hend
    refine ⟨p.refl _, ⟨h.sound, h.mixins.push.of_inner outer ?_⟩, h.mixins.of_mixin? known, ?_⟩
    · rw [empty]
      exact fun e he => absurd he List.not_mem_nil
    · -- the caller's scope comes back and takes over what the mixin left
      intro css inner' state'' outer' holds
      have hpop : inner'.pop = scope := Scope.pop_eq_of_outer (outer'.trans outer)
      dsimp only
      rw [hpop]
      exact ⟨⟨holds.sound, (holds.mixins.around (outer'.trans outer)).merge holds.mixins.inner⟩,
        (scope.extends_merge _).outer⟩
  | imports pos uri =>
    rw [enter] at hrun
    split at hrun
    · cases hrun
      exact .refl h
    · obtain ⟨⟨src, path⟩, state₁, hload, hend⟩ := of_run_bind_ok hrun
      obtain ⟨sound, later, loaded⟩ := importFile_kept h.sound place.file uri
      rw [hload] at sound later loaded
      cases hend
      have mixins := h.mixins.mono fun m hm t ht => p.mono later (hm t ht)
      exact .inPlace rfl (fun _ => rfl) later ⟨sound, mixins⟩ (loaded src path rfl)
  | forLoop pos var first bound inclusive step body =>
    rw [enter] at hrun
    obtain ⟨⟨r, unit⟩, _, hr, hend⟩ := of_run_bind_ok hrun
    obtain ⟨-, rfl⟩ := of_run_lift_ok hr
    cases hend
    exact .inPlace rfl (fun _ => rfl) (p.refl _) h nested
  | choice head more =>
    rw [enter] at hrun
    obtain ⟨branch, _, hlift, hend⟩ := of_run_bind_ok hrun
    obtain ⟨hbranch, rfl⟩ := of_run_lift_ok hlift
    cases branch with
    | none =>
      cases hend
      exact .refl h
    | some b =>
      cases hend
      refine .inPlace rfl (fun _ => rfl) (p.refl _) h fun t ht => nested t ?_
      exact List.mem_flatMap.2 ⟨b, mem_of_chooseBranch hbranch, ht⟩
  | whileLoop pos test runsFirst body =>
    cases hrun
    exact .inPlace rfl (fun _ => rfl) (p.refl _) h nested
  | directive pos text body =>
    rw [enter] at hrun
    obtain ⟨text, _, htext, hend⟩ := of_run_bind_ok hrun
    obtain ⟨-, rfl⟩ := of_run_lift_ok htext
    cases hend
    exact .inPlace rfl (fun _ => rfl) (p.refl _) h nested
  | comment pos lines =>
    cases hrun
    exact .refl h

/-- The run: expanding a statement, or what it opens, keeps the promise. The induction is on the
fuel. -/
theorem run_kept (fuel : Nat) :
    (∀ {place scope s css scope'} {state state' : Status σ}, p.Holds state.importer scope →
      p.Vouched state.importer s →
      (statement settings fuel place scope s).run state = (.ok (css, scope'), state') →
        p.Kept state.importer scope state'.importer scope') ∧
    ∀ (job : Job) {place done scope css scope'} {state state' : Status σ},
      p.Holds state.importer scope → (∀ t ∈ job.inside, p.Vouched state.importer t) →
      (job.run settings fuel place done scope).run state = (.ok (css, scope'), state') →
        p.Kept state.importer scope state'.importer scope' := by
  induction fuel with
  | zero =>
    refine ⟨fun _ _ hrun => ?_, fun job _ _ _ _ _ _ _ _ _ hrun => ?_⟩
    · cases hrun
    · cases job <;> cases hrun
  | succ fuel ih =>
    refine ⟨fun h hs hrun => ?_, fun job place done scope css scope' state state' h hjob hrun => ?_⟩
    · rw [statement_succ] at hrun
      obtain ⟨turn, state₁, henter, hrun⟩ := of_run_bind_ok hrun
      have turned := enter_kept h hs henter
      cases turn with
      | done css scope' =>
        cases hrun
        exact turned
      | opens o =>
        obtain ⟨css, inner, state₂, hjob, heq, rfl⟩ := of_run_finish_ok hrun
        have kept := ih.2 o.job turned.holds turned.vouched hjob
        obtain ⟨holds, outer⟩ := turned.close css kept.outer kept.holds
        rw [← heq] at holds outer
        rw [o.importer_leave]
        exact ⟨p.trans turned.later kept.later, holds, outer⟩
    · cases job with
      | body ss =>
        cases ss with
        | nil =>
          cases hrun
          exact .refl h
        | cons s rest =>
          rw [Job.run, statements] at hrun
          obtain ⟨⟨css₁, scope₁⟩, state₁, hs, hrun⟩ := of_run_bind_ok hrun
          have first := ih.1 h (hjob s List.mem_cons_self) (of_run_locating_ok hs)
          have hrest := first.vouched fun t ht => hjob t (List.mem_cons_of_mem _ ht)
          exact first.trans (ih.2 (.body rest) first.holds hrest hrun)
      | count r x loop =>
        rw [Job.run, forRounds] at hrun
        split at hrun
        · obtain ⟨⟨css₁, inner⟩, state₁, hround, hrun⟩ := of_run_bind_ok hrun
          have round := ih.2 (.body loop.2.2)
            ⟨h.sound, h.mixins.push.set loop.1 _⟩ hjob hround
          have hpop : inner.pop = scope := Scope.pop_eq_of_outer round.outer
          dsimp only at hrun
          rw [hpop] at hrun
          have back : p.Kept state.importer scope state₁.importer scope :=
            ⟨round.later, ⟨round.holds.sound, round.holds.mixins.around round.outer⟩, rfl⟩
          exact back.trans (ih.2 (.count r (r.next x) loop) back.holds (back.vouched hjob) hrun)
        · cases hrun
          exact .refl h
      | repeated test untested ss =>
        rw [run_repeated_succ] at hrun
        obtain ⟨goes, _, htest, hround⟩ := of_run_bind_ok hrun
        obtain ⟨-, rfl⟩ := of_run_lift_ok htest
        split at hround
        · obtain ⟨⟨css₁, scope₁⟩, state₁, hbody, hmore⟩ := of_run_bind_ok hround
          have round := ih.2 (.body ss) h hjob hbody
          exact round.trans (ih.2 (.repeated test false ss) round.holds (round.vouched hjob) hmore)
        · cases hround
          exact .refl h

end Promise

/-! ## The discipline -/

theorem holds_trivial (settings : Settings σ) (state : σ) (scope : Scope) :
    (Promise.trivial settings).Holds state scope :=
  ⟨⟨⟩, fun _ _ _ _ _ _ => ⟨⟩⟩

/-- Whatever a statement expands to, the frames around the innermost one stay as they are. -/
theorem outer_statement {settings : Settings σ} {fuel : Nat} {place : Place}
    {scope scope' : Scope} {s : Statement} {css : List Css} {state state' : Status σ}
    (h : (statement settings fuel place scope s).run state = (.ok (css, scope'), state')) :
    scope'.outer = scope.outer :=
  ((Promise.run_kept fuel).1 (holds_trivial settings state.importer scope) ⟨⟩ h).outer

theorem outer_body {settings : Settings σ} {fuel : Nat} {place : Place} {done : List Css}
    {scope scope' : Scope} {body : List Statement} {css : List Css} {state state' : Status σ}
    (h : (statements settings fuel place done scope body).run state =
      (.ok (css, scope'), state')) :
    scope'.outer = scope.outer :=
  ((Promise.run_kept fuel).2 (.body body) (holds_trivial settings state.importer scope)
    (fun _ _ => ⟨⟩) h).outer

/-- Each round of a counting loop ends in the scope in which it began, and so does the loop. -/
theorem scope_count {settings : Settings σ} {fuel : Nat} {place : Place} {done : List Css}
    {scope scope' : Scope} {r : Span Float} {x : Float} {loop : Text × Text × List Statement}
    {css : List Css} {state state' : Status σ}
    (h : ((Job.count r x loop).run settings fuel place done scope).run state =
      (.ok (css, scope'), state')) :
    scope' = scope := by
  induction fuel generalizing done x state with
  | zero => cases h
  | succ fuel ih =>
    rw [Job.run, forRounds] at h
    split at h
    · obtain ⟨⟨css₁, inner⟩, state₁, hround, hmore⟩ := of_run_bind_ok h
      have outer : inner.outer = scope.frames := outer_body hround
      dsimp only at hmore
      rw [Scope.pop_eq_of_outer outer] at hmore
      exact ih hmore
    · cases h
      rfl

/-- A mixin adds names to the scope of its caller and replaces none. -/
theorem extends_call {settings : Settings σ} {fuel : Nat} {place : Place} {scope scope' : Scope}
    {pos : Position} {name : Text} {args : List Text} {css : List Css} {state state' : Status σ}
    (h : (statement settings fuel place scope (.call pos name args)).run state =
      (.ok (css, scope'), state')) :
    scope.Extends scope' := by
  cases fuel with
  | zero => cases h
  | succ fuel =>
    rw [statement] at h
    obtain ⟨⟨m, inner⟩, _, hlift, hbody⟩ := of_run_bind_ok h
    obtain ⟨hm, rfl⟩ := of_run_lift_ok hlift
    obtain ⟨⟨css₁, inner'⟩, state₁, hrun, hend⟩ := of_run_bind_ok hbody
    have outer : inner'.outer = scope.frames :=
      (outer_body hrun).trans (enterMixin_eq_ok hm).2.1
    cases hend
    rw [Scope.pop_eq_of_outer outer]
    exact scope.extends_merge _

/-- **A statement changes the innermost frame of its scope and nothing else.** Only names that are
new come from a mixin, and nothing at all comes from a counting loop. -/
theorem statement_keeps_scope {settings : Settings σ} {fuel : Nat} {place : Place}
    {scope scope' : Scope} {s : Statement} {css : List Css} {state state' : Status σ}
    (h : (statement settings fuel place scope s).run state = (.ok (css, scope'), state')) :
    scope'.outer = scope.outer ∧
    (∀ pos name args, s = .call pos name args →
      (∀ x v, scope.get? x = some v → scope'.get? x = some v) ∧
      ∀ x m, scope.mixin? x = some m → scope'.mixin? x = some m) ∧
    ∀ pos var first bound inclusive step body,
      s = .forLoop pos var first bound inclusive step body → scope' = scope := by
  refine ⟨outer_statement h, ?_, ?_⟩
  · rintro pos name args rfl
    have ext := extends_call h
    exact ⟨ext.vars, ext.mixins⟩
  · rintro pos var first bound inclusive step body rfl
    cases fuel with
    | zero => cases h
    | succ fuel =>
      rw [statement] at h
      obtain ⟨⟨r, unit⟩, _, -, hloop⟩ := of_run_bind_ok h
      exact scope_count hloop

/-- A mixin that assigns a known and an unknown variable and defines itself anew: the caller's
variable and mixin stand, and only the unknown name is added. -/
theorem statement_keeps_scope_mixin :
    let body : List Statement :=
      [.assign .none "x" "b" false, .assign .none "y" "c" false, .mixin .none "m" [] []]
    let m : Mixin := ⟨.none, "m", [], body⟩
    let scope : Scope :=
      ⟨⟨[("x", .string "a" false)], [("m", m)]⟩, [⟨[("z", .string "d" false)], []⟩]⟩
    let settings : Settings Unit := ⟨.css3, [], none⟩
    ∃ css scope',
      (statement settings 9 ⟨[], [], []⟩ scope (.call .none "m" [])).run ⟨[], ()⟩ =
        (.ok (css, scope'), ⟨[], ()⟩) ∧
      scope'.inner.vars.map Prod.fst = [("x" : Text), "y"] ∧ scope'.outer = scope.outer ∧
      scope'.get? "x" = some (.string "a" false) ∧ scope'.mixin? "m" = some m := by
  intro body m scope settings
  have hvars : ((statement settings 9 ⟨[], [], []⟩ scope
      (.call .none "m" [])).run ⟨[], ()⟩).1.toOption.map (fun r => r.2.inner.vars.map Prod.fst) =
        some [("x" : Text), "y"] := by decide +kernel
  rcases hrun : (statement settings 9 ⟨[], [], []⟩ scope (.call .none "m" [])).run ⟨[], ()⟩
    with ⟨_ | ⟨css, scope'⟩, stack, ⟨⟩⟩
  · rw [hrun] at hvars
    cases hvars
  · rw [hrun] at hvars
    have ⟨outer, known, _⟩ := statement_keeps_scope hrun
    have ⟨vars, mixins⟩ := known _ _ _ rfl
    have hstack := ((restoring settings 9).statement ⟨[], [], []⟩ scope
      (.call .none "m" [])).left ⟨[], ()⟩
    rw [hrun] at hstack
    obtain rfl : stack = [] := hstack
    exact ⟨css, scope', rfl, Option.some.inj hvars, outer, vars _ _ rfl, mixins _ _ rfl⟩

end Expand

end IndentedSass
