import IndentedSass.Fault

/-!
# Bounded caches

A bounded cache holds at most `size` entries. When a new key finds it full, some other entry has to
go; which one is left open and is a parameter of `add`. A memo is such a cache together with all the
choices that will be made.
-/

namespace IndentedSass

/-- Entries by key, each key once, and the size that bounds their number. -/
structure Bounded (κ υ : Type) where
  size : Int
  items : List (κ × υ)

namespace Bounded
variable {κ υ : Type} [BEq κ]

/-- A cache without entries. -/
def empty (size : Int) : Bounded κ υ := ⟨size, []⟩

/-- The number of entries. -/
def length (c : Bounded κ υ) : Nat := c.items.length

/-- The value of a key. -/
def get? (c : Bounded κ υ) (k : κ) : Option υ := c.items.lookup k

/-- Whether a new key would have to displace an entry. -/
def isFull (c : Bounded κ υ) : Bool := c.size ≤ c.items.length

/-- Gives a key that is present a new value. -/
def replace (k : κ) (v : υ) : List (κ × υ) → List (κ × υ)
  | [] => []
  | (key, w) :: rest => if key == k then (key, v) :: rest else (key, w) :: replace k v rest

/-- Stores a value, and says whether an entry was displaced for it: entry number `victim`, counted
around. -/
def add (victim : Nat) (k : κ) (v : υ) (c : Bounded κ υ) : Bool × Bounded κ υ :=
  if (c.get? k).isSome then (false, { c with items := replace k v c.items })
  else if c.isFull then
    (true, { c with items := c.items.eraseIdx (victim % c.items.length) ++ [(k, v)] })
  else (false, { c with items := c.items ++ [(k, v)] })

/-- Removes a key. -/
def erase (k : κ) (c : Bounded κ υ) : Bounded κ υ :=
  { c with items := c.items.filter fun entry => !(entry.1 == k) }

/-- The value of a key, computed and stored if it is not there. A fault is not stored. -/
def getOrCompute (victim : Nat) (k : κ) (f : Unit → Except Fault υ) (c : Bounded κ υ) :
    Except Fault υ × Bounded κ υ :=
  match c.get? k with
  | some v => (.ok v, c)
  | none =>
    match f () with
    | .ok v => (.ok v, (c.add victim k v).2)
    | .error fault => (.error fault, c)

end Bounded

/-- A bounded cache, and which entry each of the next calls displaces if it has to. -/
structure Memo (κ υ : Type) extends Bounded κ υ where
  victims : Nat → Nat

namespace Memo
variable {κ υ : Type} [BEq κ]

/-- The value of a key, computed and stored if it is not there. -/
def getOrCompute (k : κ) (f : Unit → Except Fault υ) (m : Memo κ υ) : Except Fault υ × Memo κ υ :=
  let (result, c) := m.toBounded.getOrCompute (m.victims 0) k f
  (result, ⟨c, fun call => m.victims (call + 1)⟩)

end Memo

end IndentedSass
