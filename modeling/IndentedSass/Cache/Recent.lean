/-!
# Caches of recent entries

Such a cache holds the `capacity` entries that were used last. Reading and storing both make an
entry the newest; the oldest makes room.
-/

namespace IndentedSass

/-- Entries by key, the newest first. -/
structure Recent (κ υ : Type) where
  capacity : Nat
  items : List (κ × υ)

namespace Recent
variable {κ υ : Type} [BEq κ]

/-- A cache without entries. -/
def empty (capacity : Nat) : Recent κ υ := ⟨capacity, []⟩

/-- The entries but for a key. -/
def without (k : κ) (items : List (κ × υ)) : List (κ × υ) :=
  items.filter fun entry => !(entry.1 == k)

/-- The value of a key, which becomes the newest. -/
def get? (k : κ) (c : Recent κ υ) : Option υ × Recent κ υ :=
  match c.items.lookup k with
  | none => (none, c)
  | some v => (some v, { c with items := (k, v) :: without k c.items })

/-- Stores a value as the newest. -/
def add (k : κ) (v : υ) (c : Recent κ υ) : Recent κ υ :=
  { c with items := ((k, v) :: without k c.items).take c.capacity }

/-- Removes a key. -/
def erase (k : κ) (c : Recent κ υ) : Recent κ υ := { c with items := without k c.items }

end Recent

end IndentedSass
