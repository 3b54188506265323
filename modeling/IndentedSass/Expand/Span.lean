/-!
# Spans of counting loops

The values that a counting loop runs through, over any kind of number with addition and an order.
The loop counts towards its bound, whatever the sign of the step. An inclusive bound is moved one
further in that direction, and the loop runs while its value has not reached it.
-/

namespace IndentedSass

/-- First value, bound and step of a counting loop. -/
structure Span (α : Type) where
  first : α
  bound : α
  step : α
  inclusive : Bool

namespace Span
variable {α : Type} [Add α] [Mul α] [Neg α] [LT α] [DecidableLT α] [OfNat α 0] [OfNat α 1]

/-- The size of a number. -/
def size (x : α) : α := if x < 0 then -x else x

/-- The direction of the loop: minus one downwards, one upwards. -/
def direction (r : Span α) : α := if r.bound < r.first then -1 else 1

/-- What is added after each round. -/
def stride (r : Span α) : α := r.direction * size r.step

/-- The value that ends the loop. -/
def stop (r : Span α) : α := if r.inclusive then r.bound + r.direction else r.bound

/-- Whether there is a round with value `x`. -/
def runs (r : Span α) (x : α) : Bool := r.direction * x < r.direction * r.stop

/-- The value of the round after the one with value `x`. -/
def next (r : Span α) (x : α) : α := x + r.stride

end Span

end IndentedSass
