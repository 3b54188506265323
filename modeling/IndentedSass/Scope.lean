import IndentedSass.Script.Eval
import IndentedSass.Statement

/-!
# Scopes

A scope is a stack of frames. Lookups walk outwards from the innermost frame, and a binding is
always made in the innermost one. `Scope.merge` hands the bindings of a finished inner frame to
the scope around it, where they never replace a name that is known already.
-/

namespace IndentedSass

/-- A mixin as it was defined. -/
structure Mixin where
  pos : Position
  name : Text
  params : List Param
  body : List Statement

/-- Values by name, each name once. -/
abbrev Bindings (α : Type) := List (Text × α)

namespace Bindings
variable {α : Type}

/-- The value of a name. -/
def get? (b : Bindings α) (name : Text) : Option α := b.lookup name

/-- Binds a name, in place of its old value if it has one. -/
def set (b : Bindings α) (name : Text) (v : α) : Bindings α :=
  match b with
  | [] => [(name, v)]
  | (key, w) :: rest => if key = name then (name, v) :: rest else (key, w) :: set rest name v

theorem get?_set (b : Bindings α) (name : Text) (v : α) (key : Text) :
    (b.set name v).get? key = if key = name then some v else b.get? key := by
  induction b with
  | nil =>
    by_cases h : key = name
    · simp [set, get?, h]
    · simp [set, get?, List.lookup_cons, h, beq_eq_false_iff_ne.mpr h]
  | cons entry rest ih =>
    obtain ⟨k, w⟩ := entry
    simp only [get?] at ih
    by_cases hk : k = name
    · by_cases h : key = name
      · simp [set, get?, hk, h]
      · simp [set, get?, List.lookup_cons, hk, h, beq_eq_false_iff_ne.mpr h]
    · by_cases h : key = k
      · simp [set, get?, hk, h]
      · simp [set, get?, List.lookup_cons, hk, beq_eq_false_iff_ne.mpr h, ih]

end Bindings

/-- The bindings of one scope. -/
structure Frame where
  vars : Bindings Script.Value
  mixins : Bindings Mixin

/-- A frame without bindings. -/
def Frame.empty : Frame := ⟨[], []⟩

/-- A stack of frames, the innermost apart. -/
structure Scope where
  inner : Frame
  outer : List Frame

namespace Scope

/-- A single empty frame. -/
def empty : Scope := ⟨.empty, []⟩

/-- All frames, the innermost first. -/
def frames (s : Scope) : List Frame := s.inner :: s.outer

/-- A new innermost frame. -/
def push (s : Scope) : Scope := ⟨.empty, s.frames⟩

/-- The scope without its innermost frame; the outermost frame stays. -/
def pop (s : Scope) : Scope :=
  match s.outer with
  | [] => s
  | inner :: outer => ⟨inner, outer⟩

/-- The value of a variable: the binding of the nearest frame that has one. -/
def get? (s : Scope) (name : Text) : Option Script.Value :=
  s.frames.findSome? fun f => f.vars.get? name

/-- Whether a variable has a value. -/
def has (s : Scope) (name : Text) : Bool := (s.get? name).isSome

/-- Binds a variable in the innermost frame. -/
def set (s : Scope) (name : Text) (v : Script.Value) : Scope :=
  { s with inner := { s.inner with vars := s.inner.vars.set name v } }

/-- The mixin of a name: the one of the nearest frame that has one. -/
def mixin? (s : Scope) (name : Text) : Option Mixin :=
  s.frames.findSome? fun f => f.mixins.get? name

/-- Defines a mixin in the innermost frame. -/
def addMixin (s : Scope) (m : Mixin) : Scope :=
  { s with inner := { s.inner with mixins := s.inner.mixins.set m.name m } }

/-- Binds a variable that has no value yet. -/
def setNew (s : Scope) (entry : Text × Script.Value) : Scope :=
  if s.has entry.1 then s else s.set entry.1 entry.2

/-- Defines a mixin whose name is not taken yet. -/
def addNewMixin (s : Scope) (m : Mixin) : Scope :=
  if (s.mixin? m.name).isSome then s else s.addMixin m

/-- Takes over those bindings of a frame whose names are not known yet. -/
def merge (s : Scope) (f : Frame) : Scope :=
  let s := f.vars.foldl setNew s
  (f.mixins.map Prod.snd).foldl addNewMixin s

/-- The scope as expressions see it. -/
def context (s : Scope) (palette : Script.Palette) : Script.Context := ⟨s.get?, palette⟩

end Scope

end IndentedSass
