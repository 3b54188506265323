import IndentedSass.Scope

/-!
# Scopes that share frames

Many scopes can grow out of one another and stay in use side by side. A forest holds the frames of
all of them; a scope is the number of its chain, a list of frames from the innermost outwards. A
chain that was pushed from another one shares its frames, so it sees what is bound there later.
-/

namespace IndentedSass.Scope

/-- Frames by number, and chains of frame numbers. -/
structure Forest where
  frames : List Frame
  chains : List (List Nat)

namespace Forest

/-- One scope with one empty frame. -/
def start : Forest := ⟨[.empty], [[0]]⟩

/-- The chain of a scope. -/
def chain (t : Forest) (env : Nat) : List Nat := (t.chains[env]?).getD []

/-- The frame of a number. -/
def frame (t : Forest) (id : Nat) : Frame := (t.frames[id]?).getD .empty

/-- A scope with a frame of its own around which the given chain stands. -/
def grow (t : Forest) (outer : List Nat) : Nat × Forest :=
  (t.chains.length, ⟨t.frames ++ [.empty], t.chains ++ [t.frames.length :: outer]⟩)

/-- A scope of its own. -/
def new (t : Forest) : Nat × Forest := t.grow []

/-- A scope inside another one. -/
def push (t : Forest) (env : Nat) : Nat × Forest := t.grow (t.chain env)

/-- A scope with the frames of its chain as they are now. -/
def view (t : Forest) (env : Nat) : Scope :=
  match t.chain env with
  | [] => .empty
  | id :: ids => ⟨t.frame id, ids.map t.frame⟩

/-- Puts back the innermost frame of a scope. -/
def store (t : Forest) (env : Nat) (s : Scope) : Forest :=
  match t.chain env with
  | [] => t
  | id :: _ => { t with frames := t.frames.set id s.inner }

/-- Binds a variable. -/
def set (t : Forest) (env : Nat) (name : Text) (v : Script.Value) : Forest :=
  t.store env ((t.view env).set name v)

/-- Defines a mixin. -/
def addMixin (t : Forest) (env : Nat) (m : Mixin) : Forest :=
  t.store env ((t.view env).addMixin m)

/-- Hands the innermost frame of `env` to `parent`. -/
def merge (t : Forest) (env parent : Nat) : Forest :=
  t.store parent ((t.view parent).merge (t.view env).inner)

end Forest

end IndentedSass.Scope
