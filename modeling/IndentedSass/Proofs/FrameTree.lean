import IndentedSass.Scope.Forest
import IndentedSass.Proofs.ScopeDiscipline
import Mathlib.Logic.Function.Basic

/-!
# Scopes as a tree of frames

A forest keeps a list of frame numbers for every scope, copied when a scope is pushed. What it means
is simpler: every scope has a frame of its own and, unless it stands alone, an earlier scope from
which it was pushed. `Tree` says just that, with each frame as a function from names to values, and
`Tree.chain` finds the frames of a scope by asking for the scope it was pushed from, and so on.

`Forest.shows_run` shows that a forest and a tree which undergo the same operations hold the same
frames on the same chains, so that a name means in the forest what it means in the tree:

* a binding counts for its own scope and for those pushed from it, as long as no nearer frame binds
  the name (`Contents.rebinds_bind`);
* merging fills in what could not be resolved, and nothing else (`Scope.get?_merge`).
-/

namespace IndentedSass

/-- Every mixin of a frame is filed under its own name. -/
def Frame.Filed (f : Frame) : Prop := ∀ e ∈ f.mixins, e.1 = e.2.name

namespace Scope

/-! ## The scope that takes over a frame -/

/-- The frames around the innermost one, as far as variables go. -/
theorem get?_eq_or (s : Scope) (name : Text) :
    s.get? name =
      (s.inner.vars.get? name).or (s.outer.findSome? fun f => f.vars.get? name) := by
  rw [get?, frames, List.findSome?_cons]
  cases s.inner.vars.get? name <;> rfl

theorem mixin?_eq_or (s : Scope) (name : Text) :
    s.mixin? name =
      (s.inner.mixins.get? name).or (s.outer.findSome? fun f => f.mixins.get? name) := by
  rw [mixin?, frames, List.findSome?_cons]
  cases s.inner.mixins.get? name <;> rfl

/-- Entries that fill gaps one after the other: a name that can be looked up keeps its binding, and
any other one gets that of its first entry. -/
theorem foldl_fills {ε α : Type} (own look : Scope → Text → Option α) (put : Scope → ε → Scope)
    (key : ε → Text) (value : ε → α) (step : Scope → ε → Scope)
    (hstep : ∀ s e, step s e = if (look s (key e)).isSome then s else put s e)
    (hlook : ∀ s e name, look (put s e) name =
      if name = key e then some (value e) else look s name)
    (hown : ∀ s e name, own (put s e) name = if name = key e then some (value e) else own s name)
    (es : List ε) {s : Scope} {name : Text} (hnone : look s name = none → own s name = none) :
    own (es.foldl step s) name =
      if (look s name).isSome then own s name
      else (es.map fun e => (key e, value e)).lookup name := by
  induction es generalizing s with
  | nil =>
    cases hs : look s name with
    | none => simp [hnone hs]
    | some v => simp
  | cons e es ih =>
    rw [List.foldl_cons, List.map_cons, List.lookup_cons, hstep]
    by_cases hknown : (look s (key e)).isSome = true
    · rw [if_pos hknown, ih hnone]
      by_cases hname : name = key e
      · rw [hname, if_pos hknown, if_pos hknown]
      · rw [beq_eq_false_iff_ne.2 hname]
    · rw [if_neg hknown]
      by_cases hname : name = key e
      · have hput := hlook s e name
        rw [if_pos hname] at hput
        rw [ih (by simp [hput]), hput, hown, if_pos hname]
        simp [hname, hknown]
      · have hput := hlook s e name
        have hputOwn := hown s e name
        rw [if_neg hname] at hput hputOwn
        rw [ih (by rwa [hput, hputOwn]), hput, hputOwn, beq_eq_false_iff_ne.2 hname]

/-- What no step changes is the same after all of them. -/
theorem foldl_keeps {ε β : Type} (g : Scope → β) {step : Scope → ε → Scope}
    (h : ∀ s e, g (step s e) = g s) (es : List ε) (s : Scope) : g (es.foldl step s) = g s := by
  induction es generalizing s with
  | nil => rfl
  | cons e es ih => rw [List.foldl_cons, ih, h]

theorem mixins_setNew (s : Scope) (e : Text × Script.Value) :
    (s.setNew e).inner.mixins = s.inner.mixins := by
  rw [setNew]
  split <;> rfl

theorem vars_addNewMixin (s : Scope) (m : Mixin) :
    (s.addNewMixin m).inner.vars = s.inner.vars := by
  rw [addNewMixin]
  split <;> rfl

/-- Merging fills in the variables that are not visible yet. -/
theorem vars_merge (s : Scope) (f : Frame) (name : Text) :
    (s.merge f).inner.vars.get? name =
      if (s.get? name).isSome then s.inner.vars.get? name else f.vars.get? name := by
  have hnone : s.get? name = none → s.inner.vars.get? name = none := by
    intro h
    rw [get?_eq_or, Option.or_eq_none_iff] at h
    exact h.1
  have hfill := foldl_fills (fun s => s.inner.vars.get?) get?
    (fun s (e : Text × Script.Value) => s.set e.1 e.2) Prod.fst Prod.snd setNew
    (fun _ _ => rfl) (fun s e => get?_set s e.1 e.2)
    (fun s e => Bindings.get?_set s.inner.vars e.1 e.2) f.vars hnone
  rw [merge, foldl_keeps (fun s => s.inner.vars) vars_addNewMixin]
  simpa [Bindings.get?] using hfill

/-- Mixins are filled in under their own names. -/
theorem mixins_merge (s : Scope) {f : Frame} (hf : f.Filed) (name : Text) :
    (s.merge f).inner.mixins.get? name =
      if (s.mixin? name).isSome then s.inner.mixins.get? name else f.mixins.get? name := by
  have hvars := foldl_keeps (fun s => (s.inner.mixins, s.outer))
    (fun s e => Prod.ext (mixins_setNew s e) (extends_setNew s e).outer) f.vars s
  obtain ⟨hmixins, houter⟩ := Prod.mk.inj hvars
  have hlook : (f.vars.foldl setNew s).mixin? name = s.mixin? name := by
    rw [mixin?_eq_or, mixin?_eq_or, hmixins, houter]
  have hnone : (f.vars.foldl setNew s).mixin? name = none →
      (f.vars.foldl setNew s).inner.mixins.get? name = none := by
    intro h
    rw [mixin?_eq_or, Option.or_eq_none_iff] at h
    exact h.1
  have hentries : (f.mixins.map Prod.snd).map (fun m => (m.name, m)) = f.mixins := by
    rw [List.map_map]
    calc f.mixins.map ((fun m => (m.name, m)) ∘ Prod.snd)
        _ = f.mixins.map id := List.map_congr_left fun e he => Prod.ext (hf e he).symm rfl
        _ = f.mixins := List.map_id _
  have hfill := foldl_fills (fun s => s.inner.mixins.get?) mixin? addMixin Mixin.name id
    addNewMixin (fun _ _ => rfl) mixin?_addMixin
    (fun s m => Bindings.get?_set s.inner.mixins m.name m) (f.mixins.map Prod.snd) hnone
  simp only [id_eq, hentries, hlook, hmixins] at hfill
  exact hfill

theorem outer_merge (s : Scope) (f : Frame) : (s.merge f).outer = s.outer :=
  (extends_merge s f).outer

/-- **Merging fills in what could not be resolved**, with the bindings of the frame. -/
theorem get?_merge (s : Scope) (f : Frame) (name : Text) :
    (s.merge f).get? name = (s.get? name).or (f.vars.get? name) := by
  have hs := get?_eq_or s name
  rw [get?_eq_or, outer_merge, vars_merge]
  cases hknown : s.get? name with
  | some v => simpa [hknown] using hs.symm
  | none =>
    rw [hknown, eq_comm, Option.or_eq_none_iff] at hs
    simp [hs.2]

theorem mixin?_merge (s : Scope) {f : Frame} (hf : f.Filed) (name : Text) :
    (s.merge f).mixin? name = (s.mixin? name).or (f.mixins.get? name) := by
  have hs := mixin?_eq_or s name
  rw [mixin?_eq_or, outer_merge, mixins_merge s hf]
  cases hknown : s.mixin? name with
  | some v => simpa [hknown] using hs.symm
  | none =>
    rw [hknown, eq_comm, Option.or_eq_none_iff] at hs
    simp [hs.2]

theorem filed_addMixin {s : Scope} (hs : s.inner.Filed) (m : Mixin) :
    (s.addMixin m).inner.Filed := by
  intro e he
  obtain rfl | he := Bindings.mem_set he
  · rfl
  · exact hs e he

/-- The mixins of a frame are filed under their names, also after merging. -/
theorem filed_merge {s : Scope} (hs : s.inner.Filed) (f : Frame) : (s.merge f).inner.Filed := by
  have hvars : (f.vars.foldl setNew s).inner.Filed := by
    have hkeeps := foldl_keeps (fun s => s.inner.mixins) mixins_setNew f.vars s
    rw [Frame.Filed, hkeeps]
    exact hs
  rw [merge]
  generalize f.vars.foldl setNew s = s at hvars ⊢
  induction f.mixins.map Prod.snd generalizing s with
  | nil => exact hvars
  | cons m ms ih =>
    refine ih _ ?_
    rw [addNewMixin]
    split
    · exact hvars
    · exact filed_addMixin hvars m

/-! ## Trees -/

/-- What the frame of each scope binds. -/
abbrev Contents (α : Type) := Nat → Text → Option α

namespace Contents
variable {α : Type}

/-- The binding of the nearest frame on a chain of scopes. -/
def nearest (own : Contents α) (chain : List Nat) (name : Text) : Option α :=
  chain.findSome? fun env => own env name

/-- Binds a name in the frame of one scope. -/
def bind (own : Contents α) (env : Nat) (name : Text) (v : α) : Contents α :=
  Function.update own env (Function.update (own env) name (some v))

/-- Copies the frame of `env` into that of `parent`, but for the names that the chain of `parent`
resolves already. -/
def fill (own : Contents α) (chain : List Nat) (env parent : Nat) : Contents α :=
  Function.update own parent fun name =>
    if (own.nearest chain name).isSome then own parent name else own env name

/-- The frame of `env` is on the chain, and no nearer one binds the name. -/
def Visible (own : Contents α) (chain : List Nat) (env : Nat) (name : Text) : Prop :=
  ∃ nearer farther, chain = nearer ++ env :: farther ∧ ∀ e ∈ nearer, own e name = none

theorem bind_self (own : Contents α) (env : Nat) (name : Text) (v : α) :
    own.bind env name v env name = some v := by
  rw [bind, Function.update_self, Function.update_self]

theorem bind_of_ne (own : Contents α) {env e : Nat} {name key : Text} (v : α)
    (h : ¬ (e = env ∧ key = name)) : own.bind env name v e key = own e key := by
  rw [bind]
  by_cases he : e = env
  · subst he
    rw [Function.update_self, Function.update_of_ne fun hkey => h ⟨rfl, hkey⟩]
  · rw [Function.update_of_ne he]

/-- A name has a new meaning where the frame of `env` is visible, and all else means what it meant
before. -/
structure Rebinds (own : Contents α) (chain : List Nat) (env : Nat) (name : Text) (v : α)
    (old new : Text → Option α) : Prop where
  bound : own.Visible chain env name → new name = some v
  kept : ∀ key, ¬ (key = name ∧ own.Visible chain env name) → new key = old key

/-- A binding is seen where no nearer frame has the name. -/
theorem nearest_bind {own : Contents α} {chain : List Nat} {env : Nat} {name : Text}
    (h : own.Visible chain env name) (v : α) :
    (own.bind env name v).nearest chain name = some v := by
  obtain ⟨nearer, farther, rfl, hnearer⟩ := h
  induction nearer with
  | nil => rw [nearest, List.nil_append, List.findSome?_cons, bind_self]
  | cons e nearer ih =>
    rw [List.forall_mem_cons] at hnearer
    rw [nearest, List.cons_append, List.findSome?_cons]
    by_cases he : e = env
    · rw [he, bind_self]
    · rw [bind_of_ne own v fun h => he h.1, hnearer.1]
      exact ih hnearer.2

/-- Elsewhere nothing changes. -/
theorem nearest_bind_of_not_visible {own : Contents α} {chain : List Nat} {env : Nat}
    {name key : Text} (h : ¬ (key = name ∧ own.Visible chain env name)) (v : α) :
    (own.bind env name v).nearest chain key = own.nearest chain key := by
  induction chain with
  | nil => rfl
  | cons e chain ih =>
    have hother : ¬ (e = env ∧ key = name) := by
      rintro ⟨rfl, hkey⟩
      exact h ⟨hkey, [], chain, rfl, by simp⟩
    rw [nearest, nearest, List.findSome?_cons, List.findSome?_cons, bind_of_ne own v hother]
    cases hown : own e key with
    | some w => rfl
    | none =>
      -- a frame without the name hides nothing
      refine ih ?_
      rintro ⟨hkey, nearer, farther, hchain, hnearer⟩
      refine h ⟨hkey, e :: nearer, farther, by rw [hchain, List.cons_append], ?_⟩
      rw [List.forall_mem_cons]
      exact ⟨hkey ▸ hown, hnearer⟩

/-- **A binding counts where its frame is the nearest one with the name**, and nowhere else. -/
theorem rebinds_bind (own : Contents α) (chain : List Nat) (env : Nat) (name : Text) (v : α) :
    own.Rebinds chain env name v (own.nearest chain) ((own.bind env name v).nearest chain) :=
  ⟨fun h => nearest_bind h v, fun _ h => nearest_bind_of_not_visible h v⟩

end Contents

/-- A scope, then the one it was pushed from, and so on. -/
def chainFrom (parent : (env : Nat) → Option (Fin env)) (env : Nat) : List Nat :=
  match parent env with
  | some p => env :: chainFrom parent p
  | none => [env]
termination_by env
decreasing_by exact p.isLt

/-- Scopes numbered in the order of their making. Each has a frame of its own; one that was pushed
from another scope has that one, which is older, as its parent. -/
structure Tree where
  size : Nat
  parent : (env : Nat) → Option (Fin env)
  vars : Contents Script.Value
  mixins : Contents Mixin

/-- What can be done to scopes. -/
inductive Act where
  | new
  | push (env : Nat)
  | set (env : Nat) (name : Text) (v : Script.Value)
  | addMixin (env : Nat) (m : Mixin)
  | merge (env parent : Nat)

namespace Tree

/-- One scope with an empty frame. -/
def start : Tree := ⟨1, fun _ => none, fun _ _ => none, fun _ _ => none⟩

/-- The frames that a lookup in a scope goes through. -/
def chain (u : Tree) (env : Nat) : List Nat := chainFrom u.parent env

/-- The variable that a name stands for in a scope. -/
def get? (u : Tree) (env : Nat) (name : Text) : Option Script.Value :=
  u.vars.nearest (u.chain env) name

/-- The mixin that a name stands for in a scope. -/
def mixin? (u : Tree) (env : Nat) (name : Text) : Option Mixin :=
  u.mixins.nearest (u.chain env) name

/-- One more scope. -/
def grow (u : Tree) (parent : Option (Fin u.size)) : Tree :=
  { u with size := u.size + 1, parent := Function.update u.parent u.size parent }

/-- What an operation does. One on a scope that does not exist does nothing, and what is pushed from
there stands alone. -/
def act (u : Tree) : Act → Tree
  | .new => u.grow none
  | .push env => u.grow (if h : env < u.size then some ⟨env, h⟩ else none)
  | .set env name v => if env < u.size then { u with vars := u.vars.bind env name v } else u
  | .addMixin env m => if env < u.size then { u with mixins := u.mixins.bind env m.name m } else u
  | .merge env parent =>
    if parent < u.size then
      { u with
        vars := u.vars.fill (u.chain parent) env parent
        mixins := u.mixins.fill (u.chain parent) env parent }
    else u

/-- The tree after a sequence of operations. -/
def run (acts : List Act) : Tree := acts.foldl act start

/-- A chain starts with its own scope and goes on with older ones. -/
theorem chain_cons (u : Tree) (env : Nat) :
    ∃ farther, u.chain env = env :: farther ∧ ∀ e ∈ farther, e < env := by
  rw [chain]
  induction env using Nat.strongRecOn with
  | ind env ih =>
    rw [chainFrom]
    cases u.parent env with
    | none => exact ⟨[], rfl, by simp⟩
    | some p =>
      obtain ⟨farther, hchain, holder⟩ := ih p p.isLt
      refine ⟨chainFrom u.parent p, rfl, ?_⟩
      intro e he
      rw [hchain] at he
      obtain rfl | he := List.mem_cons.1 he
      · exact p.isLt
      · exact Nat.lt_trans (holder e he) p.isLt

/-- A scope that is made later is on no chain of earlier ones. -/
theorem chainFrom_update {parent : (env : Nat) → Option (Fin env)} {size : Nat}
    (p : Option (Fin size)) {env : Nat} (h : env < size) :
    chainFrom (Function.update parent size p) env = chainFrom parent env := by
  induction env using Nat.strongRecOn with
  | ind env ih =>
    rw [chainFrom, chainFrom, Function.update_of_ne (Nat.ne_of_lt h)]
    cases parent env with
    | none => rfl
    | some q => exact congrArg (env :: ·) (ih q q.isLt (Nat.lt_trans q.isLt h))

theorem chain_grow (u : Tree) (parent : Option (Fin u.size)) {env : Nat} (h : env < u.size) :
    (u.grow parent).chain env = u.chain env :=
  chainFrom_update parent h

theorem chain_grow_none (u : Tree) : (u.grow none).chain u.size = [u.size] := by
  have hparent : (u.grow none).parent u.size = none := Function.update_self ..
  rw [chain, chainFrom, hparent]

/-- A new frame sees itself, and then what its parent sees. -/
theorem chain_grow_some (u : Tree) (p : Fin u.size) :
    (u.grow (some p)).chain u.size = u.size :: u.chain p := by
  have hparent : (u.grow (some p)).parent u.size = some p := Function.update_self ..
  rw [chain, chainFrom, hparent]
  exact congrArg (u.size :: ·) (chainFrom_update (some p) p.isLt)

end Tree

namespace Forest

/-- What an operation does. -/
def act (t : Forest) : Act → Forest
  | .new => t.new.2
  | .push env => (t.push env).2
  | .set env name v => t.set env name v
  | .addMixin env m => t.addMixin env m
  | .merge env parent => t.merge env parent

/-- The forest after a sequence of operations. -/
def run (acts : List Act) : Forest := acts.foldl act start

/-- The forest and the tree hold the same frames on the same chains. -/
structure Shows (t : Forest) (u : Tree) : Prop where
  chains : t.chains.length = u.size
  frames : t.frames.length = u.size
  chain : ∀ env, env < u.size → t.chain env = u.chain env
  vars : ∀ env name, (t.frame env).vars.get? name = u.vars env name
  mixins : ∀ env name, (t.frame env).mixins.get? name = u.mixins env name
  filed : ∀ env, (t.frame env).Filed

variable {t : Forest} {u : Tree}

theorem shows_start : start.Shows .start where
  chains := rfl
  frames := rfl
  chain := by
    intro env h
    obtain rfl : env = 0 := Nat.lt_one_iff.1 h
    rw [Tree.chain, chainFrom]
    rfl
  vars := by
    intro env name
    cases env <;> rfl
  mixins := by
    intro env name
    cases env <;> rfl
  filed := by
    intro env e he
    cases env <;> cases he

theorem frame_grow (t : Forest) (outer : List Nat) (env : Nat) :
    (t.grow outer).2.frame env = t.frame env := by
  rw [frame, frame, grow]
  obtain h | h | h := Nat.lt_trichotomy env t.frames.length
  · simp [List.getElem?_append_left h]
  · simp [h]
  · have hlater : (t.frames ++ [Frame.empty]).length ≤ env := by
      rw [List.length_append, List.length_singleton]
      omega
    simp [List.getElem?_eq_none hlater, List.getElem?_eq_none (Nat.le_of_lt h)]

/-- A frame that is added on both sides shows on both. -/
theorem Shows.grow (h : t.Shows u) {outer : List Nat} {parent : Option (Fin u.size)}
    (hchain : (u.grow parent).chain u.size = u.size :: outer) :
    (t.grow outer).2.Shows (u.grow parent) where
  chains := by simp [Forest.grow, Tree.grow, h.chains]
  frames := by simp [Forest.grow, Tree.grow, h.frames]
  chain := by
    intro env henv
    by_cases hnew : env < u.size
    · rw [u.chain_grow parent hnew, ← h.chain env hnew, Forest.chain, Forest.chain, Forest.grow,
        List.getElem?_append_left (by rwa [h.chains])]
    · obtain rfl : env = u.size := Nat.le_antisymm (Nat.le_of_lt_succ henv) (Nat.not_lt.1 hnew)
      rw [hchain, Forest.chain, Forest.grow, ← h.chains, List.getElem?_concat_length]
      simp [h.frames, h.chains]
  vars := by
    intro env name
    rw [frame_grow]
    exact h.vars env name
  mixins := by
    intro env name
    rw [frame_grow]
    exact h.mixins env name
  filed := by
    intro env
    rw [frame_grow]
    exact h.filed env

theorem Shows.chain_cons (h : t.Shows u) {env : Nat} (henv : env < u.size) :
    ∃ farther, t.chain env = env :: farther ∧ ∀ e ∈ farther, e < env := by
  rw [h.chain env henv]
  exact u.chain_cons env

theorem view_of_chain {env id : Nat} {ids : List Nat} (h : t.chain env = id :: ids) :
    t.view env = ⟨t.frame id, ids.map t.frame⟩ := by
  rw [view, h]

theorem frames_view {env id : Nat} {ids : List Nat} (h : t.chain env = id :: ids) :
    (t.view env).frames = (t.chain env).map t.frame := by
  rw [view_of_chain h, h]
  rfl

/-- A frame that is not there has no chain. -/
theorem Shows.chain_missing (h : t.Shows u) {env : Nat} (henv : ¬ env < u.size) :
    t.chain env = [] := by
  rw [Forest.chain, List.getElem?_eq_none (by rw [h.chains]; exact Nat.not_lt.1 henv)]
  rfl

theorem Shows.inner_view (h : t.Shows u) (env : Nat) : (t.view env).inner = t.frame env := by
  by_cases henv : env < u.size
  · obtain ⟨farther, hchain, -⟩ := h.chain_cons henv
    rw [view_of_chain hchain]
  · rw [view, h.chain_missing henv, frame,
      List.getElem?_eq_none (by rw [h.frames]; exact Nat.not_lt.1 henv)]
    rfl

/-- A variable means in the forest what it means in the tree. -/
theorem Shows.get?_view (h : t.Shows u) {env : Nat} (henv : env < u.size) (name : Text) :
    (t.view env).get? name = u.get? env name := by
  obtain ⟨farther, hchain, -⟩ := h.chain_cons henv
  rw [Scope.get?, frames_view hchain, h.chain env henv, List.findSome?_map, Tree.get?,
    Contents.nearest]
  exact congrArg (List.findSome? · _) (funext fun e => h.vars e name)

theorem Shows.mixin?_view (h : t.Shows u) {env : Nat} (henv : env < u.size) (name : Text) :
    (t.view env).mixin? name = u.mixin? env name := by
  obtain ⟨farther, hchain, -⟩ := h.chain_cons henv
  rw [Scope.mixin?, frames_view hchain, h.chain env henv, List.findSome?_map, Tree.mixin?,
    Contents.nearest]
  exact congrArg (List.findSome? · _) (funext fun e => h.mixins e name)

theorem chains_store (t : Forest) (env : Nat) (s : Scope) : (t.store env s).chains = t.chains := by
  rw [store]
  split <;> rfl

/-- Storing a scope replaces its own frame. -/
theorem Shows.frame_store (h : t.Shows u) {env : Nat} (henv : env < u.size) (s : Scope) (e : Nat) :
    (t.store env s).frame e = if e = env then s.inner else t.frame e := by
  obtain ⟨farther, hchain, -⟩ := h.chain_cons henv
  rw [store, hchain, frame]
  by_cases he : e = env
  · have hlength : env < t.frames.length := by rwa [h.frames]
    simp [he, List.getElem?_set_self hlength]
  · rw [if_neg he, frame, List.getElem?_set_ne (Ne.symm he)]

/-- A scope that is stored changes its own frame in the tree. -/
theorem Shows.store (h : t.Shows u) {env : Nat} (henv : env < u.size) {s : Scope}
    {vars : Text → Option Script.Value} {mixins : Text → Option Mixin}
    (hvars : ∀ name, s.inner.vars.get? name = vars name)
    (hmixins : ∀ name, s.inner.mixins.get? name = mixins name) (hfiled : s.inner.Filed) :
    (t.store env s).Shows
      { u with
        vars := Function.update u.vars env vars
        mixins := Function.update u.mixins env mixins } where
  chains := by rw [chains_store, h.chains]
  frames := by
    obtain ⟨farther, hchain, -⟩ := h.chain_cons henv
    rw [Forest.store, hchain, List.length_set, h.frames]
  chain := by
    intro e he
    rw [Forest.chain, chains_store]
    exact h.chain e he
  vars := by
    intro e name
    rw [h.frame_store henv]
    dsimp only
    by_cases he : e = env
    · rw [if_pos he, he, hvars, Function.update_self]
    · rw [if_neg he, h.vars, Function.update_of_ne he]
  mixins := by
    intro e name
    rw [h.frame_store henv]
    dsimp only
    by_cases he : e = env
    · rw [if_pos he, he, hmixins, Function.update_self]
    · rw [if_neg he, h.mixins, Function.update_of_ne he]
  filed := by
    intro e
    rw [h.frame_store henv]
    by_cases he : e = env
    · rw [if_pos he]
      exact hfiled
    · rw [if_neg he]
      exact h.filed e

theorem Shows.store_missing (h : t.Shows u) {env : Nat} (henv : ¬ env < u.size) (s : Scope) :
    t.store env s = t := by
  rw [Forest.store, h.chain_missing henv]

/-- Setting a variable changes the same frame on both sides. -/
theorem Shows.set (h : t.Shows u) (env : Nat) (name : Text) (v : Script.Value) :
    (t.set env name v).Shows (u.act (.set env name v)) := by
  rw [Forest.set, Tree.act]
  by_cases henv : env < u.size
  · have hvars : ∀ key, ((t.view env).set name v).inner.vars.get? key =
        Function.update (u.vars env) name (some v) key := by
      intro key
      rw [Scope.set, Bindings.get?_set, h.inner_view, h.vars, Function.update_apply]
    have hmixins : ∀ key, ((t.view env).set name v).inner.mixins.get? key = u.mixins env key := by
      intro key
      rw [Scope.set, h.inner_view, h.mixins]
    have hfiled : (t.view env).inner.Filed := h.inner_view env ▸ h.filed env
    have hstore := h.store henv hvars hmixins hfiled
    rw [Function.update_eq_self] at hstore
    rw [if_pos henv]
    exact hstore
  · rw [if_neg henv, h.store_missing henv]
    exact h

theorem Shows.addMixin (h : t.Shows u) (env : Nat) (m : Mixin) :
    (t.addMixin env m).Shows (u.act (.addMixin env m)) := by
  rw [Forest.addMixin, Tree.act]
  by_cases henv : env < u.size
  · have hvars : ∀ key, ((t.view env).addMixin m).inner.vars.get? key = u.vars env key := by
      intro key
      rw [Scope.addMixin, h.inner_view, h.vars]
    have hmixins : ∀ key, ((t.view env).addMixin m).inner.mixins.get? key =
        Function.update (u.mixins env) m.name (some m) key := by
      intro key
      rw [Scope.addMixin, Bindings.get?_set, h.inner_view, h.mixins, Function.update_apply]
    have hfiled : ((t.view env).addMixin m).inner.Filed :=
      filed_addMixin (h.inner_view env ▸ h.filed env) m
    have hstore := h.store henv hvars hmixins hfiled
    rw [Function.update_eq_self] at hstore
    rw [if_pos henv]
    exact hstore
  · rw [if_neg henv, h.store_missing henv]
    exact h

/-- Merging reads the frame on one side as on the other. -/
theorem Shows.merge (h : t.Shows u) (env parent : Nat) :
    (t.merge env parent).Shows (u.act (.merge env parent)) := by
  rw [Forest.merge, Tree.act]
  by_cases hparent : parent < u.size
  · have henv : (t.view env).inner.Filed := h.inner_view env ▸ h.filed env
    have hown : (t.view parent).inner.Filed := h.inner_view parent ▸ h.filed parent
    rw [if_pos hparent]
    refine h.store hparent (fun name => ?_) (fun name => ?_) (filed_merge hown _)
    · rw [vars_merge, h.get?_view hparent, h.inner_view, h.inner_view, h.vars, h.vars]
      rfl
    · rw [mixins_merge _ henv, h.mixin?_view hparent, h.inner_view, h.inner_view, h.mixins,
        h.mixins]
      rfl
  · rw [if_neg hparent, h.store_missing hparent]
    exact h

theorem Shows.push (h : t.Shows u) (env : Nat) : (t.push env).2.Shows (u.act (.push env)) := by
  rw [Forest.push, Tree.act]
  by_cases henv : env < u.size
  · rw [dif_pos henv, h.chain env henv]
    exact h.grow (u.chain_grow_some ⟨env, henv⟩)
  · rw [dif_neg henv, h.chain_missing henv]
    exact h.grow u.chain_grow_none

/-- **Every operation does the same to the forest as to the tree.** -/
theorem Shows.act (h : t.Shows u) (a : Act) : (t.act a).Shows (u.act a) := by
  cases a with
  | new => exact h.grow u.chain_grow_none
  | push env => exact h.push env
  | set env name v => exact h.set env name v
  | addMixin env m => exact h.addMixin env m
  | merge env parent => exact h.merge env parent

/-- **Every run shows the same on both sides.** The induction is on the acts. -/
theorem shows_run (acts : List Act) : (run acts).Shows (.run acts) := by
  have hfold : ∀ (acts : List Act) {t : Forest} {u : Tree}, t.Shows u →
      (acts.foldl Forest.act t).Shows (acts.foldl Tree.act u) := by
    intro acts
    induction acts with
    | nil => exact fun h => h
    | cons a acts ih => exact fun h => ih (h.act a)
  exact hfold acts shows_start

/-! ## What an operation changes -/

section Changes
variable (h : t.Shows u) {env other : Nat} (henv : env < u.size) (hother : other < u.size)
include h henv hother

/-- Setting a variable changes what is seen under its name, from where no nearer frame has that
name, and nothing else. -/
theorem Shows.changes_set (name : Text) (v : Script.Value) :
    u.vars.Rebinds (u.chain other) env name v (t.view other).get?
        ((t.set env name v).view other).get? ∧
      ((t.set env name v).view other).mixin? = (t.view other).mixin? := by
  have hset := h.set env name v
  rw [Tree.act, if_pos henv] at hset
  rw [funext (hset.get?_view hother), funext (h.get?_view hother),
    funext (hset.mixin?_view hother), funext (h.mixin?_view hother)]
  exact ⟨Contents.rebinds_bind .., rfl⟩

theorem Shows.changes_addMixin (m : Mixin) :
    u.mixins.Rebinds (u.chain other) env m.name m (t.view other).mixin?
        ((t.addMixin env m).view other).mixin? ∧
      ((t.addMixin env m).view other).get? = (t.view other).get? := by
  have hadd := h.addMixin env m
  rw [Tree.act, if_pos henv] at hadd
  rw [funext (hadd.get?_view hother), funext (h.get?_view hother),
    funext (hadd.mixin?_view hother), funext (h.mixin?_view hother)]
  exact ⟨Contents.rebinds_bind .., rfl⟩

end Changes

/-- Storing a scope whose outer frames are as they were gives that scope. -/
theorem Shows.view_store (h : t.Shows u) {env : Nat} (henv : env < u.size) {s : Scope}
    (houter : s.outer = (t.view env).outer) : (t.store env s).view env = s := by
  obtain ⟨farther, hchain, holder⟩ := h.chain_cons henv
  have hchain' : (t.store env s).chain env = env :: farther := by
    rw [Forest.chain, chains_store]
    exact hchain
  have hfarther : farther.map (t.store env s).frame = farther.map t.frame := by
    refine List.map_congr_left fun e he => ?_
    rw [h.frame_store henv, if_neg (Nat.ne_of_lt (holder e he))]
  have houter' : s.outer = farther.map t.frame := by rw [houter, view_of_chain hchain]
  rw [view_of_chain hchain', h.frame_store henv, if_pos rfl, hfarther, ← houter']

/-- Merging leaves the other frames alone. -/
theorem Shows.inner_merge (h : t.Shows u) {parent other : Nat} (hparent : parent < u.size)
    (hother : other ≠ parent) (env : Nat) :
    ((t.merge env parent).view other).inner = (t.view other).inner := by
  rw [(h.merge env parent).inner_view, h.inner_view, Forest.merge, h.frame_store hparent,
    if_neg hother]

/-- **A forest is a tree of frames**, whatever was done to its scopes. A name stands for what the
nearest frame on the chain binds it to. A binding changes what its name means where its frame is
visible, and nothing else. Merging `env` into `parent` keeps what `parent` knows, adds what only the
frame of `env` binds, and changes no other frame. -/
theorem run_shows_tree (acts : List Act) :
    let t := run acts
    let u := Tree.run acts
    (∀ env, env < u.size →
      (t.view env).get? = u.get? env ∧ (t.view env).mixin? = u.mixin? env) ∧
    (∀ env other, env < u.size → other < u.size →
      (∀ name v,
        u.vars.Rebinds (u.chain other) env name v (t.view other).get?
            ((t.set env name v).view other).get? ∧
          ((t.set env name v).view other).mixin? = (t.view other).mixin?) ∧
      ∀ m,
        u.mixins.Rebinds (u.chain other) env m.name m (t.view other).mixin?
            ((t.addMixin env m).view other).mixin? ∧
          ((t.addMixin env m).view other).get? = (t.view other).get?) ∧
    ∀ env parent, env < u.size → parent < u.size →
      (∀ name,
        ((t.merge env parent).view parent).get? name =
            ((t.view parent).get? name).or ((t.view env).inner.vars.get? name) ∧
          ((t.merge env parent).view parent).mixin? name =
            ((t.view parent).mixin? name).or ((t.view env).inner.mixins.get? name)) ∧
      (∀ other, other ≠ parent →
        ((t.merge env parent).view other).inner = (t.view other).inner) ∧
      (t.merge env parent).chains = t.chains := by
  intro t u
  have h : t.Shows u := shows_run acts
  refine ⟨?_, ?_, ?_⟩
  · intro env henv
    exact ⟨funext (h.get?_view henv), funext (h.mixin?_view henv)⟩
  · intro env other henv hother
    exact ⟨h.changes_set henv hother, h.changes_addMixin henv hother⟩
  · intro env parent henv hparent
    have hfiled : (t.view env).inner.Filed := h.inner_view env ▸ h.filed env
    refine ⟨fun name => ?_, fun other hother => h.inner_merge hparent hother env,
      chains_store t parent _⟩
    rw [Forest.merge, h.view_store hparent (outer_merge _ _)]
    exact ⟨get?_merge _ _ name, mixin?_merge _ hfiled name⟩

end Forest

end Scope

end IndentedSass
