import IndentedSass.Proofs.ImportStack

/-!
# Exposed visits

A rule and a directive become a block around what is nested in them. Calls, choices, loops and
imports do not: what they expand to stands in their place. A visit is exposed when no rule and no
directive stands around it (`Exposed`).

An expansion that succeeds has a declaration at the top of its sheet if and only if it has an
exposed visit of a property with a value (`hasProperties_iff`). If no tree has a property at its
top, such a visit is always inside an exposed call, choice or loop (`Exposed.exists_splice`).
-/

namespace IndentedSass

namespace Statement

def isProperty : Statement → Bool
  | property .. => true
  | _ => false

/-- A property that has a value of its own. -/
def declares : Statement → Bool
  | property _ _ value _ _ => !isNamespace value
  | _ => false

/-- A statement that becomes a block around what is nested in it. -/
def encloses : Statement → Bool
  | rule .. | directive .. => true
  | _ => false

/-- A statement that is replaced by what it runs. -/
def splices : Statement → Bool
  | call .. | choice .. | forLoop .. | whileLoop .. => true
  | _ => false

mutual

/-- A statement that puts no declaration in its own place, whatever runs: it is no property and no
call, and if it is a choice or a loop, it has only such statements in it. -/
def isSheltered : Statement → Bool
  | property .. | call .. => false
  | forLoop _ _ _ _ _ _ body | whileLoop _ _ _ body => allSheltered body
  | choice head more => branchSheltered head && branchesSheltered more
  | rule .. | assign .. | mixin .. | imports .. | directive .. | comment .. => true

def allSheltered : List Statement → Bool
  | [] => true
  | s :: rest => isSheltered s && allSheltered rest

def branchSheltered : Branch Statement → Bool
  | ⟨_, _, body⟩ => allSheltered body

def branchesSheltered : List (Branch Statement) → Bool
  | [] => true
  | b :: rest => branchSheltered b && branchesSheltered rest

end

theorem allSheltered_iff (ss : List Statement) :
    allSheltered ss = true ↔ ∀ t ∈ ss, t.isSheltered = true := by
  induction ss with
  | nil => simp [allSheltered]
  | cons s rest ih => simp [allSheltered, ih]

theorem branchesSheltered_iff (bs : List (Branch Statement)) :
    branchesSheltered bs = true ↔ ∀ b ∈ bs, ∀ t ∈ b.body, t.isSheltered = true := by
  induction bs with
  | nil => simp [branchesSheltered]
  | cons b rest ih =>
    obtain ⟨pos, test, body⟩ := b
    simp [branchesSheltered, branchSheltered, allSheltered_iff, ih]

theorem isProperty_of_isSheltered {s : Statement} (h : s.isSheltered = true) :
    s.isProperty = false := by
  cases s with
  | property => cases h
  | _ => rfl

/-- A sheltered statement that splices has sheltered statements in it. -/
theorem isSheltered_of_nested {s : Statement} (h : s.isSheltered = true) (hs : s.splices = true) :
    ∀ t ∈ s.nested, t.isSheltered = true := by
  cases s with
  | forLoop pos var first bound inclusive step body =>
    rw [isSheltered, allSheltered_iff] at h
    exact h
  | whileLoop pos test runsFirst body =>
    rw [isSheltered, allSheltered_iff] at h
    exact h
  | choice head more =>
    have hall : branchesSheltered (head :: more) = true := by
      rw [isSheltered] at h
      rw [branchesSheltered]
      exact h
    rw [branchesSheltered_iff] at hall
    intro t ht
    obtain ⟨b, hb, ht⟩ := List.mem_flatMap.1 ht
    exact hall b hb t ht
  | call => cases h
  | rule | property | assign | mixin | imports | directive | comment => cases hs

theorem isProperty_of_declares {s : Statement} (h : s.declares = true) : s.isProperty = true := by
  cases s with
  | property => rfl
  | _ => cases h

end Statement

namespace Expand
open Css Relation
variable {σ : Type} {settings : Settings σ} {start : σ}

/-! ## The visits of a job that succeeds -/

section Visits
variable {fuel : Nat} {place : Place} {scope : Scope} {state : Status σ} {w : Visit σ}

theorem Job.Visits.mem_inside {job : Job} (h : job.Visits settings fuel place scope state w) :
    w.statement ∈ job.inside := by
  induction h with
  | here => exact List.mem_cons_self
  | later _ _ ih => exact List.mem_cons_of_mem _ ih
  | round _ _ ih | laterRound _ _ _ ih | turn _ _ ih | laterTurn _ _ _ ih => exact ih

theorem visits_cons_iff {s : Statement} {rest : List Statement} {css : List Css} {scope' : Scope}
    {state' : Status σ}
    (hs : (statement settings fuel place scope s).run state = (.ok (css, scope'), state')) :
    (Job.body (s :: rest)).Visits settings (fuel + 1) place scope state w ↔
      w = ⟨fuel, place, scope, s, state⟩ ∨
        (Job.body rest).Visits settings fuel place scope' state' w := by
  constructor
  · intro h
    cases h with
    | here => exact .inl rfl
    | later h hw =>
      rw [hs] at h
      cases h
      exact .inr hw
  · rintro (rfl | h)
    · exact .here
    · exact .later hs h

theorem visits_count_iff {r : Span Float} {x : Float} {loop : Text × Text × List Statement}
    {css : List Css} {inner : Scope} {state' : Status σ} (hruns : r.runs x = true)
    (hround : (statements settings fuel place [] (scope.push.set loop.1 (.number ⟨x, loop.2.1⟩))
      loop.2.2).run state = (.ok (css, inner), state')) :
    (Job.count r x loop).Visits settings (fuel + 1) place scope state w ↔
      (Job.body loop.2.2).Visits settings fuel place
        (scope.push.set loop.1 (.number ⟨x, loop.2.1⟩)) state w ∨
      (Job.count r (r.next x) loop).Visits settings fuel place inner.pop state' w := by
  constructor
  · intro h
    cases h with
    | round _ hw => exact .inl hw
    | laterRound _ h hw =>
      rw [hround] at h
      cases h
      exact .inr hw
  · rintro (h | h)
    · exact .round hruns h
    · exact .laterRound hruns hround h

theorem visits_repeated_iff {test : Text} {untested : Bool} {ss : List Statement}
    {css : List Css} {scope' : Scope} {state' : Status σ}
    (htest : roundTest settings.palette scope test untested = .ok true)
    (hturn : (statements settings fuel place [] scope ss).run state =
      (.ok (css, scope'), state')) :
    (Job.repeated test untested ss).Visits settings (fuel + 1) place scope state w ↔
      (Job.body ss).Visits settings fuel place scope state w ∨
      (Job.repeated test false ss).Visits settings fuel place scope' state' w := by
  constructor
  · intro h
    cases h with
    | turn _ hw => exact .inl hw
    | laterTurn _ h hw =>
      rw [hturn] at h
      cases h
      exact .inr hw
  · rintro (h | h)
    · exact .turn htest h
    · exact .laterTurn htest hturn h

end Visits

/-! ## What a statement shows of what it runs -/

/-- What a statement adds of its own, and whether declarations in it are seen outside. -/
def Turn.Shows (s : Statement) : Turn → Prop
  | .done css _ => hasProperties css = false ∧ s.declares = false
  | .opens o => ∀ r, hasProperties (o.close r).1 =
      (s.declares || (!s.encloses && hasProperties r.1))

theorem hasProperties_append (xs ys : List Css) :
    hasProperties (xs ++ ys) = (hasProperties xs || hasProperties ys) := List.any_append

theorem hasProperties_reverse (xs : List Css) : hasProperties xs.reverse = hasProperties xs :=
  List.any_reverse

/-- A property with a value is declared under at least one name. -/
theorem hasProperties_declarations (vendors : Bindings (List Text)) (name value : Text) :
    hasProperties (declarations vendors name value) = true := by
  have hnames (names : List Text) (hne : names ≠ []) :
      hasProperties (names.map fun variant => .property variant value) = true := by
    obtain ⟨first, rest, rfl⟩ := List.exists_cons_of_ne_nil hne
    rfl
  rw [declarations]
  refine hnames _ ?_
  split
  · rename_i hmem
    intro hnil
    rw [hnil] at hmem
    cases hmem
  · exact List.append_ne_nil_of_right_ne_nil _ (List.cons_ne_nil _ _)

theorem enter_shows {place : Place} {scope : Scope} {s : Statement} {turn : Turn}
    {state state' : Status σ} (h : (enter settings place scope s).run state = (.ok turn, state')) :
    turn.Shows s := by
  cases s with
  | rule pos selectors body =>
    rw [enter] at h
    obtain ⟨lines, _, -, hend⟩ := of_run_bind_ok h
    cases hend
    exact fun _ => rfl
  | property pos name value script body =>
    rw [enter] at h
    obtain ⟨name, _, -, hrest⟩ := of_run_bind_ok h
    obtain ⟨own, _, hown, hend⟩ := of_run_bind_ok hrest
    obtain ⟨hown, -⟩ := of_run_lift_ok hown
    cases hend
    intro r
    show hasProperties (own ++ r.1) = (!Statement.isNamespace value || (true && _))
    rw [hasProperties_append, Bool.true_and]
    congr 1
    split at hown
    · rename_i hempty
      cases hown
      rw [hempty]
      rfl
    · rename_i hvalue
      rw [Bool.not_eq_true] at hvalue
      rw [hvalue]
      cases hpv : propertyValue (scope.context settings.palette) value script with
      | ok text =>
        rw [hpv] at hown
        cases hown
        exact hasProperties_declarations _ _ _
      | error f =>
        rw [hpv] at hown
        cases hown
  | assign pos name expr optional =>
    rw [enter] at h
    split at h
    · cases h
      exact ⟨rfl, rfl⟩
    · obtain ⟨v, _, -, hend⟩ := of_run_bind_ok h
      cases hend
      exact ⟨rfl, rfl⟩
  | mixin pos name params body =>
    cases h
    exact ⟨rfl, rfl⟩
  | call pos name args =>
    rw [enter] at h
    obtain ⟨⟨m, inner⟩, _, -, hend⟩ := of_run_bind_ok h
    cases hend
    exact fun _ => rfl
  | imports pos uri =>
    rw [enter] at h
    split at h
    · cases h
      exact ⟨rfl, rfl⟩
    · obtain ⟨⟨src, path⟩, _, -, hend⟩ := of_run_bind_ok h
      cases hend
      exact fun _ => rfl
  | forLoop pos var first bound inclusive step body =>
    rw [enter] at h
    obtain ⟨⟨r, unit⟩, _, -, hend⟩ := of_run_bind_ok h
    cases hend
    exact fun _ => rfl
  | choice head more =>
    rw [enter] at h
    obtain ⟨branch, _, -, hend⟩ := of_run_bind_ok h
    cases branch with
    | none =>
      cases hend
      exact ⟨rfl, rfl⟩
    | some b =>
      cases hend
      exact fun _ => rfl
  | whileLoop pos test runsFirst body =>
    cases h
    exact fun _ => rfl
  | directive pos text body =>
    rw [enter] at h
    obtain ⟨text, _, -, hend⟩ := of_run_bind_ok h
    cases hend
    exact fun _ => rfl
  | comment pos lines =>
    cases h
    exact ⟨rfl, rfl⟩

/-! ## Exposed visits -/

/-- `v` opens `w` and puts no block around it. -/
def Visit.Exposes (settings : Settings σ) (v w : Visit σ) : Prop :=
  v.Opens settings w ∧ v.statement.encloses = false

/-- A declaration comes to stand in the place of the visit. -/
def Visit.Bares (settings : Settings σ) (v : Visit σ) : Prop :=
  ∃ u, ReflTransGen (Visit.Exposes settings) v u ∧ u.statement.declares = true

theorem Visit.bares_iff (v : Visit σ) :
    v.Bares settings ↔ v.statement.declares = true ∨
      (v.statement.encloses = false ∧ ∃ w, v.Opens settings w ∧ w.Bares settings) := by
  constructor
  · rintro ⟨u, hreach, hu⟩
    rcases ReflTransGen.cases_head hreach with rfl | ⟨w, ⟨hopens, hopen⟩, hreach⟩
    · exact .inl hu
    · exact .inr ⟨hopen, w, hopens, u, hreach, hu⟩
  · rintro (hv | ⟨hopen, w, hopens, u, hreach, hu⟩)
    · exact ⟨v, .refl, hv⟩
    · exact ⟨u, .head ⟨hopens, hopen⟩ hreach, hu⟩

theorem Visit.opens_iff {v w : Visit σ} {fuel : Nat} {o : Opening} {state : Status σ}
    (hfuel : v.fuel = fuel + 1)
    (henter : (enter settings v.place v.scope v.statement).run v.state = (.ok (.opens o), state)) :
    v.Opens settings w ↔ o.job.Visits settings fuel o.place o.scope state w := by
  constructor
  · rintro ⟨fuel', o', state', hfuel', henter', hvisits⟩
    rw [hfuel] at hfuel'
    rw [henter] at henter'
    cases hfuel'
    cases henter'
    exact hvisits
  · exact fun hvisits => ⟨fuel, o, state, hfuel, henter, hvisits⟩

/-- A job that visits nothing more shows what was there before. -/
theorem hasProperties_over {fuel : Nat} {place : Place} {scope : Scope} {state : Status σ}
    {job : Job} (hidle : ∀ w, ¬ job.Visits settings fuel place scope state w) (done : List Css) :
    hasProperties done.reverse = true ↔ hasProperties done = true ∨
      ∃ w, job.Visits settings fuel place scope state w ∧ w.Bares settings := by
  rw [hasProperties_reverse]
  refine ⟨.inl, ?_⟩
  rintro (h | ⟨w, hw, -⟩)
  · exact h
  · exact absurd hw (hidle w)

/-- **What a successful expansion shows.** A statement shows a declaration if and only if its visit
lays one bare, and a job if and only if one of its visits does. The induction is on the fuel. -/
theorem hasProperties_run (fuel : Nat) :
    (∀ {place scope s css scope'} {state state' : Status σ},
      (statement settings fuel place scope s).run state = (.ok (css, scope'), state') →
        (hasProperties css = true ↔ Visit.Bares settings ⟨fuel, place, scope, s, state⟩)) ∧
    ∀ (job : Job) {place done scope css scope'} {state state' : Status σ},
      (job.run settings fuel place done scope).run state = (.ok (css, scope'), state') →
        (hasProperties css = true ↔ hasProperties done = true ∨
          ∃ w, job.Visits settings fuel place scope state w ∧ w.Bares settings) := by
  induction fuel with
  | zero =>
    refine ⟨fun hrun => ?_, fun job _ _ _ _ _ _ _ hrun => ?_⟩
    · cases hrun
    · cases job <;> cases hrun
  | succ fuel ih =>
    refine ⟨fun {place scope s css scope' state state'} hrun => ?_,
      fun job place done scope css scope' state state' hrun => ?_⟩
    · rw [statement_succ] at hrun
      obtain ⟨turn, state₁, henter, hrun⟩ := of_run_bind_ok hrun
      have shows := enter_shows henter
      rw [Visit.bares_iff]
      cases turn with
      | done css' scope₁ =>
        cases hrun
        obtain ⟨hcss, hdeclares⟩ := shows
        rw [hcss, hdeclares]
        refine ⟨nofun, ?_⟩
        rintro (h | ⟨-, w, ⟨_, o, _, -, hopens, -⟩, -⟩)
        · cases h
        · rw [henter] at hopens
          cases hopens
      | opens o =>
        obtain ⟨css₁, inner, state₂, hjob, heq, -⟩ := of_run_finish_ok hrun
        have hinside := ih.2 o.job hjob
        have hopens (w : Visit σ) : Visit.Opens settings ⟨fuel + 1, place, scope, s, state⟩ w ↔
            o.job.Visits settings fuel o.place o.scope state₁ w := Visit.opens_iff rfl henter
        obtain rfl : css = (o.close (css₁, inner)).1 := congrArg Prod.fst heq
        -- its own declaration, or, if it is no block, what its job shows
        simp only [hopens, shows (css₁, inner), Bool.or_eq_true, Bool.and_eq_true,
          Bool.not_eq_true', hinside]
        simp [hasProperties]
    · cases job with
      | body ss =>
        cases ss with
        | nil =>
          cases hrun
          refine hasProperties_over (fun w hw => ?_) done
          cases hw
        | cons s rest =>
          rw [Job.run, statements] at hrun
          obtain ⟨⟨css₁, scope₁⟩, state₁, hs, hrun⟩ := of_run_bind_ok hrun
          have hs := of_run_locating_ok hs
          rw [ih.2 (.body rest) hrun, hasProperties_append, hasProperties_reverse, Bool.or_eq_true,
            ih.1 hs]
          simp only [visits_cons_iff hs]
          grind
      | count r x loop =>
        rw [Job.run, forRounds] at hrun
        split at hrun
        · rename_i hruns
          obtain ⟨⟨css₁, inner⟩, state₁, hround, hrun⟩ := of_run_bind_ok hrun
          rw [ih.2 (.count r (r.next x) loop) hrun, hasProperties_append, hasProperties_reverse,
            Bool.or_eq_true, ih.2 (.body loop.2.2) hround]
          simp only [visits_count_iff hruns hround]
          grind [hasProperties]
        · rename_i hruns
          cases hrun
          refine hasProperties_over (fun w hw => ?_) done
          cases hw with
          | round h _ => exact hruns h
          | laterRound h _ _ => exact hruns h
      | repeated test untested ss =>
        rw [run_repeated_succ] at hrun
        obtain ⟨goes, _, hlift, hrun⟩ := of_run_bind_ok hrun
        obtain ⟨htest, rfl⟩ := of_run_lift_ok hlift
        cases goes with
        | true =>
          obtain ⟨⟨css₁, scope₁⟩, state₁, hturn, hrun⟩ := of_run_bind_ok hrun
          rw [ih.2 (.repeated test false ss) hrun, hasProperties_append, hasProperties_reverse,
            Bool.or_eq_true, ih.2 (.body ss) hturn]
          simp only [visits_repeated_iff htest hturn]
          grind [hasProperties]
        | false =>
          cases hrun
          refine hasProperties_over (fun w hw => ?_) done
          cases hw with
          | turn h _ =>
            rw [htest] at h
            cases h
          | laterTurn h _ _ =>
            rw [htest] at h
            cases h

/-- The visit is part of the expansion of a source, and no rule and no directive stands around
it. -/
def Exposed (settings : Settings σ) (fuel : Nat) (file : Text) (src : Source) (start : σ)
    (v : Visit σ) : Prop :=
  ∃ u, (Job.body src.body).Visits settings fuel ⟨[], [], file⟩ .empty (outset file start) u ∧
    ReflTransGen (Visit.Exposes settings) u v

section Exposed
variable {fuel : Nat} {file : Text} {src : Source} {v : Visit σ}

/-- A successful expansion has a declaration at the top if and only if it has an exposed visit of
one. -/
theorem hasProperties_iff {css : List Css} {state' : σ}
    (h : (source settings fuel file src).run start = (.ok css, state')) :
    hasProperties css = true ↔
      ∃ v, Exposed settings fuel file src start v ∧ v.statement.declares = true := by
  rw [run_source] at h
  rcases hrun : (statements settings fuel ⟨[], [], file⟩ [] .empty src.body).run
    (outset file start) with ⟨stop | ⟨css₁, scope⟩, state₁⟩ <;> rw [hrun] at h <;> cases h
  rw [(hasProperties_run fuel).2 (.body src.body) hrun]
  constructor
  · rintro (h | ⟨u, hu, v, hreach, hv⟩)
    · cases h
    · exact ⟨v, ⟨u, hu, hreach⟩, hv⟩
  · rintro ⟨v, ⟨u, hu, hreach⟩, hv⟩
    exact .inr ⟨u, hu, v, hreach, hv⟩

/-- The importer is in a state that loads led to whenever a visit begins. -/
theorem Exposed.leads (h : Exposed settings fuel file src start v) :
    settings.Leads start v.state.importer := by
  obtain ⟨u, hu, hreach⟩ := h
  let p := loadedPromise settings start (fun _ => True) (fun _ _ _ _ => ⟨⟩) fun _ _ _ _ _ => ⟨⟩
  have hstart : p.Holds start .empty := ⟨.start, Scope.eachMixin_empty⟩
  have hu := Promise.visit_holds hu hstart fun _ _ => ⟨⟩
  have hreach : ReflTransGen (Visit.Opens settings) u v :=
    hreach.lift id fun _ _ h => h.1
  exact (Promise.reach_holds hreach hu.1 hu.2).1.sound

/-- What a visit exposes is the top of a loaded file, or it is inside a property or a statement that
splices, and nested in it unless that is a call. -/
theorem Visit.Exposes.origin {u : Visit σ} (hu : settings.Leads start u.state.importer)
    (h : u.Exposes settings v) :
    (∃ tree path, settings.Gives start tree path ∧ v.statement ∈ tree.body) ∨
      ((u.statement.isProperty = true ∨ u.statement.splices = true) ∧
        ((∀ pos name args, u.statement ≠ .call pos name args) →
          v.statement ∈ u.statement.nested)) := by
  obtain ⟨⟨_, o, state, -, henter, hvisits⟩, hopen⟩ := h
  have hmem := hvisits.mem_inside
  cases enter_within henter with
  | here _ hplain hinside _ =>
    refine .inr ⟨?_, fun hcall => hinside hcall _ hmem⟩
    cases hs : u.statement with
    | property => exact .inl rfl
    | call | choice | forLoop | whileLoop => exact .inr rfl
    | rule | directive =>
      rw [hs] at hopen
      cases hopen
    | mixin | comment =>
      rw [hs] at henter
      cases henter
    | assign =>
      rw [hs, enter] at henter
      split at henter
      · cases henter
      · obtain ⟨_, _, -, hend⟩ := of_run_bind_ok henter
        cases hend
    | imports pos uri =>
      rw [hs, enter, if_pos (hplain pos uri hs)] at henter
      cases henter
  | imported _ _ himporter hload _ _ hjob =>
    rw [hjob] at hmem
    exact .inl ⟨_, _, ⟨_, _, _, _, himporter, hu, congrArg Prod.fst hload⟩, hmem⟩

/-- **Declarations get to the top through a call, a choice or a loop.** If no tree has a property at
its top, every exposed property is inside an exposed statement that splices. -/
theorem Exposed.exists_splice (hsrc : ∀ t ∈ src.body, t.isProperty = false)
    (hloaded : ∀ tree path, settings.Gives start tree path → ∀ t ∈ tree.body, t.isProperty = false)
    (h : Exposed settings fuel file src start v) (hv : v.statement.isProperty = true) :
    ∃ u, Exposed settings fuel file src start u ∧ u.statement.splices = true ∧
      TransGen (Visit.Exposes settings) u v := by
  obtain ⟨top, htop, hreach⟩ := h
  -- outwards from property to property, until something else stands around
  induction hreach with
  | refl => exact absurd hv (Bool.eq_false_iff.1 (hsrc _ htop.mem_inside))
  | @tail u v hreach hexposes ih =>
    have hu : Exposed settings fuel file src start u := ⟨top, htop, hreach⟩
    rcases hexposes.origin hu.leads with ⟨tree, path, hgives, hmem⟩ | ⟨hproperty | hsplices, -⟩
    · exact absurd hv (Bool.eq_false_iff.1 (hloaded tree path hgives _ hmem))
    · obtain ⟨x, hx, hsplices, hreach⟩ := ih hproperty
      exact ⟨x, hx, hsplices, hreach.tail hexposes⟩
    · exact ⟨u, hu, hsplices, .single hexposes⟩

/-- If the tops of all trees are sheltered, whatever is exposed is sheltered. -/
theorem Exposed.isSheltered (hsrc : ∀ t ∈ src.body, t.isSheltered = true)
    (hloaded : ∀ tree path, settings.Gives start tree path → ∀ t ∈ tree.body, t.isSheltered = true)
    (h : Exposed settings fuel file src start v) : v.statement.isSheltered = true := by
  obtain ⟨top, htop, hreach⟩ := h
  induction hreach with
  | refl => exact hsrc _ htop.mem_inside
  | @tail u v hreach hexposes ih =>
    have hu : Exposed settings fuel file src start u := ⟨top, htop, hreach⟩
    rcases hexposes.origin hu.leads with ⟨tree, path, hgives, hmem⟩ | ⟨hkind, hnested⟩
    · exact hloaded tree path hgives _ hmem
    · generalize u.statement = s at ih hkind hnested
      have hcall : ∀ pos name args, s ≠ .call pos name args := by
        rintro pos name args rfl
        cases ih
      rcases hkind with hproperty | hsplices
      · rw [Statement.isProperty_of_isSheltered ih] at hproperty
        cases hproperty
      · exact Statement.isSheltered_of_nested ih hsplices _ (hnested hcall)

end Exposed

end Expand

end IndentedSass
