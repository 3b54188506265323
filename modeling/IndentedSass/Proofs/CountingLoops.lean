import IndentedSass.Proofs.Doubles
import IndentedSass.Proofs.Fuel
import IndentedSass.Proofs.Outcome

/-!
# The values of a counting loop

A loop that counts `to` its bound visits `first`, `first + stride`, … as long as the bound is not
reached. One that counts `through` its bound has the bound moved one further and then does the same.
Between whole numbers this makes no difference to "up to and including the bound", but other loops
may overstep it by almost one: from 1 through 2.5 there is a round with 3 (`visits_beyond_bound`).

The argument has three parts.

* Over the rationals, the number of rounds has a closed form (`Span.rounds`) and the loop runs
  through that many values (`Span.visits_rounds`).
* The doubles of a loop do what the rationals do, as long as these are doubles
  (`Span.Reads.exists_visits`). Otherwise rounding may add or lose a round, and a stride that is too
  small never gets anywhere.
* A loop whose values are known expands to its body, once for each of them
  (`Expand.endsWith_forLoop`).
-/

namespace IndentedSass

namespace Span
open Decimal Float.Model.UnpackedFloat

section
variable {α : Type} [Add α] [Mul α] [Neg α] [LT α] [DecidableLT α] [OfNat α 0] [OfNat α 1]

/-- The values of the rounds from value `x` on, up to the end of the loop. -/
inductive Visits (r : Span α) : α → List α → Prop
  | stop {x : α} (h : r.runs x = false) : Visits r x []
  | round {x : α} {xs : List α} (h : r.runs x = true) (rest : Visits r (r.next x) xs) :
    Visits r x (x :: xs)

end

/-! ## Over the rationals -/

/-- The value of round `k`. -/
def value (r : Span ℚ) (k : ℕ) : ℚ := r.first + k * (r.direction * |r.step|)

/-- The number of rounds. -/
def rounds (r : Span ℚ) : ℕ := ⌈r.direction * (r.stop - r.first) / |r.step|⌉₊

theorem size_eq_abs (q : ℚ) : size q = |q| := by
  rw [size]
  split
  · rename_i h
    exact (abs_of_neg h).symm
  · rename_i h
    exact (abs_of_nonneg (not_lt.1 h)).symm

theorem direction_mul_self (r : Span ℚ) : r.direction * r.direction = 1 := by
  rw [direction]
  split <;> norm_num

theorem next_value (r : Span ℚ) (k : ℕ) : r.next (r.value k) = r.value (k + 1) := by
  rw [next, stride, size_eq_abs, value, value]
  push_cast
  ring

theorem direction_mul_value (r : Span ℚ) (k : ℕ) :
    r.direction * r.value k = r.direction * r.first + k * |r.step| := by
  calc r.direction * r.value k
      = r.direction * r.first + r.direction * r.direction * (k * |r.step|) := by
        rw [value]
        ring
    _ = r.direction * r.first + k * |r.step| := by rw [direction_mul_self, one_mul]

theorem direction_mul_stop (r : Span ℚ) :
    r.direction * r.stop = r.direction * r.bound + if r.inclusive then 1 else 0 := by
  rw [stop]
  split
  · rw [mul_add, direction_mul_self]
  · rw [add_zero]

theorem lt_rounds_iff {r : Span ℚ} (hstep : r.step ≠ 0) (k : ℕ) :
    k < r.rounds ↔ r.runs (r.value k) = true := by
  have hpos : 0 < |r.step| := abs_pos.2 hstep
  rw [rounds, Nat.lt_ceil, lt_div_iff₀ hpos, runs, decide_eq_true_iff, direction_mul_value, mul_sub,
    lt_sub_iff_add_lt']

/-- The values from round `k` on, if there are `n` more rounds. -/
theorem visits_value {r : Span ℚ} {n k : ℕ}
    (hruns : ∀ j, k ≤ j → j < k + n → r.runs (r.value j) = true)
    (hends : r.runs (r.value (k + n)) = false) :
    r.Visits (r.value k) ((List.range' k n).map r.value) := by
  induction n generalizing k with
  | zero => exact .stop hends
  | succ n ih =>
    have hrest : r.Visits (r.value (k + 1)) ((List.range' (k + 1) n).map r.value) := by
      apply ih
      · intro j hle hlt
        exact hruns j (by omega) (by omega)
      · rw [show k + 1 + n = k + (n + 1) by omega]
        exact hends
    rw [List.range'_succ, List.map_cons]
    refine .round (hruns k (by omega) (by omega)) ?_
    rw [next_value]
    exact hrest

/-- **The loop runs through its values**, as many as there are rounds. -/
theorem visits_rounds {r : Span ℚ} (hstep : r.step ≠ 0) :
    r.Visits r.first ((List.range r.rounds).map r.value) := by
  have hfirst : r.value 0 = r.first := by simp [value]
  rw [← hfirst, List.range_eq_range']
  apply visits_value
  · intro j _ hj
    exact (lt_rounds_iff hstep j).1 (by omega)
  · rw [Nat.zero_add, ← Bool.not_eq_true, ← lt_rounds_iff hstep]
    exact lt_irrefl _

/-- Between whole numbers there is no room for a round beyond an inclusive bound. -/
theorem lt_add_one_iff_of_int {r : Span ℚ} {first bound step : ℤ} (hfirst : r.first = first)
    (hbound : r.bound = bound) (hstep : r.step = step) (k : ℕ) :
    r.direction * r.value k < r.direction * r.bound + 1 ↔
      r.direction * r.value k ≤ r.direction * r.bound := by
  obtain ⟨d, hd⟩ : ∃ d : ℤ, r.direction = d := by
    rw [direction]
    split
    · exact ⟨-1, by norm_num⟩
    · exact ⟨1, by norm_num⟩
  rw [direction_mul_value, hd, hfirst, hbound, hstep]
  norm_cast
  exact Int.lt_add_one_iff

/-! ## Over the doubles -/

/-- The numbers of a span over doubles are those of a span over rationals. -/
structure Reads (f : Span Float) (r : Span ℚ) : Prop where
  first : toRat? f.first = some r.first
  bound : toRat? f.bound = some r.bound
  step : toRat? f.step = some r.step
  inclusive : f.inclusive = r.inclusive

/-- A rational that is a double. -/
def IsDouble (q : ℚ) : Prop := ∃ x, toRat? x = some q

namespace Reads
variable {f : Span Float} {r : Span ℚ}

theorem lt_iff (h : f.Reads r) : f.bound < f.first ↔ r.bound < r.first :=
  lt_iff_toRat h.bound h.first

theorem direction (h : f.Reads r) : toRat? f.direction = some r.direction := by
  rw [Span.direction, Span.direction]
  by_cases hdown : r.bound < r.first
  · rw [if_pos (h.lt_iff.2 hdown), if_pos hdown]
    exact toRat?_neg toRat?_one
  · rw [if_neg (fun hlt => hdown (h.lt_iff.1 hlt)), if_neg hdown]
    exact toRat?_one

theorem direction_mul (h : f.Reads r) {x : Float} {q : ℚ} (hx : toRat? x = some q) :
    toRat? (f.direction * x) = some (r.direction * q) := by
  rw [Span.direction, Span.direction]
  by_cases hdown : r.bound < r.first
  · rw [if_pos (h.lt_iff.2 hdown), if_pos hdown, toRat?_unit_mul (s := .negative) rfl hx]
    rfl
  · rw [if_neg (fun hlt => hdown (h.lt_iff.1 hlt)), if_neg hdown,
      toRat?_unit_mul (s := .positive) rfl hx]
    rfl

theorem stride (h : f.Reads r) : toRat? f.stride = some r.stride := by
  refine h.direction_mul ?_
  rw [size, size]
  have hneg := lt_iff_toRat h.step toRat?_zero
  by_cases hlt : r.step < 0
  · rw [if_pos (hneg.2 hlt), if_pos hlt]
    exact toRat?_neg h.step
  · rw [if_neg (fun h => hlt (hneg.1 h)), if_neg hlt]
    exact h.step

theorem stop (h : f.Reads r) (hstop : IsDouble r.stop) : toRat? f.stop = some r.stop := by
  obtain ⟨x, hx⟩ := hstop
  rw [Span.stop] at hx
  rw [Span.stop, Span.stop, h.inclusive]
  by_cases hinclusive : r.inclusive = true
  · rw [if_pos hinclusive] at hx ⊢
    rw [if_pos hinclusive]
    exact toRat?_add h.bound h.direction hx
  · rw [if_neg hinclusive, if_neg hinclusive]
    exact h.bound

theorem runs_eq (h : f.Reads r) (hstop : IsDouble r.stop) {x : Float} {q : ℚ}
    (hx : toRat? x = some q) : f.runs x = r.runs q := by
  rw [runs, runs, decide_eq_decide]
  exact lt_iff_toRat (h.direction_mul hx) (h.direction_mul (h.stop hstop))

theorem next (h : f.Reads r) {x : Float} {q : ℚ} (hx : toRat? x = some q)
    (hnext : IsDouble (r.next q)) : toRat? (f.next x) = some (r.next q) := by
  obtain ⟨y, hy⟩ := hnext
  exact toRat?_add hx h.stride hy

/-- **A loop over doubles runs through the values of the loop over rationals**, if these are
doubles. -/
theorem exists_visits (h : f.Reads r) (hstop : IsDouble r.stop) {q : ℚ} {qs : List ℚ}
    (hvisits : r.Visits q qs) (hnext : ∀ p ∈ qs, IsDouble (r.next p)) {x : Float}
    (hx : toRat? x = some q) : ∃ xs, f.Visits x xs ∧ xs.map toRat? = qs.map some := by
  induction hvisits generalizing x with
  | stop hends =>
    rw [← h.runs_eq hstop hx] at hends
    exact ⟨[], .stop hends, rfl⟩
  | @round q qs hruns _ ih =>
    rw [← h.runs_eq hstop hx] at hruns
    obtain ⟨xs, hxs, hread⟩ := ih (fun p hp => hnext p (List.mem_cons_of_mem _ hp))
      (h.next hx (hnext q List.mem_cons_self))
    refine ⟨x :: xs, .round hruns hxs, ?_⟩
    rw [List.map_cons, List.map_cons, hx, hread]

end Reads

end Span

/-! ## The rounds -/

namespace Expand
open Float.Model.UnpackedFloat
variable {σ α : Type} {settings : Settings σ}

/-- Given enough fuel, `m` ends with an outcome. -/
def EndsWith (m : Nat → Run σ α) (state : σ) (outcome : Except Stop α × σ) : Prop :=
  outcome.1 ≠ .error .outOfFuel ∧ ∃ fuel, (m fuel).run state = outcome

theorem EndsWith.of_outlasts {m n : Nat → Run σ α} {state : σ} {outcome : Except Stop α × σ}
    (h : EndsWith m state outcome) (hmore : ∀ fuel, ∃ more, Outlasts (n more) (m fuel)) :
    EndsWith n state outcome := by
  obtain ⟨hends, fuel, rfl⟩ := h
  obtain ⟨more, hmore⟩ := hmore fuel
  exact ⟨hends, more, hmore state hends⟩

/-- The body of a loop once for each value, in a frame of its own where the variable has it. -/
def eachValue (settings : Settings σ) (fuel : Nat) (place : Place)
    (loop : Text × Text × List Statement) : Scope → List Float → Run (Status σ) (List Css × Scope)
  | scope, [] => return ([], scope)
  | scope, x :: xs => do
    let round ← statements settings fuel place []
      (scope.push.set loop.1 (.number ⟨x, loop.2.1⟩)) loop.2.2
    let rest ← eachValue settings fuel place loop round.2.pop xs
    return (round.1 ++ rest.1, rest.2)

section
variable {f : Span Float} {x : Float} {xs : List Float} {place : Place}
  {loop : Text × Text × List Statement}

/-- Puts what was expanded before in front. -/
def after (done : List Css) (r : List Css × Scope) : List Css × Scope := (done.reverse ++ r.1, r.2)

theorem after_eachValue_cons (fuel : Nat) (done : List Css) (scope : Scope) :
    after done <$> eachValue settings fuel place loop scope (x :: xs) =
      (statements settings fuel place []
          (scope.push.set loop.1 (.number ⟨x, loop.2.1⟩)) loop.2.2 >>= fun round =>
        after (round.1.reverse ++ done) <$>
          eachValue settings fuel place loop round.2.pop xs) := by
  rw [eachValue]
  simp only [map_eq_pure_bind, bind_assoc, pure_bind, after, List.reverse_append,
    List.reverse_reverse, List.append_assoc]

theorem eachValue_outlasts (h : f.Visits x xs) {fuel more : Nat} (hle : fuel ≤ more)
    (done : List Css) (scope : Scope) :
    Outlasts (after done <$> eachValue settings more place loop scope xs)
      (forRounds settings fuel place done scope f x loop) := by
  induction h generalizing fuel done scope with
  | @stop x hends =>
    cases fuel with
    | zero => exact .dry _
    | succ fuel =>
      rw [forRounds, if_neg (by simp [hends]), eachValue, map_pure, after, List.append_nil]
      exact .refl _
  | @round x xs hruns _ ih =>
    cases fuel with
    | zero => exact .dry _
    | succ fuel =>
      rw [forRounds, if_pos hruns, after_eachValue_cons]
      exact (outlasts_job (by omega) (.body loop.2.2) place [] _).bind fun round =>
        ih (by omega) _ round.2.pop

theorem forRounds_outlasts (h : f.Visits x xs) {fuel more : Nat} (hlt : fuel + xs.length < more)
    (done : List Css) (scope : Scope) :
    Outlasts (forRounds settings more place done scope f x loop)
      (after done <$> eachValue settings fuel place loop scope xs) := by
  induction h generalizing more done scope with
  | @stop x hends =>
    obtain ⟨more, rfl⟩ := Nat.exists_eq_add_one.2 (by omega : 0 < more)
    rw [forRounds, if_neg (by simp [hends]), eachValue, map_pure, after, List.append_nil]
    exact .refl _
  | @round x xs hruns _ ih =>
    obtain ⟨more, rfl⟩ := Nat.exists_eq_add_one.2 (by omega : 0 < more)
    rw [List.length_cons] at hlt
    rw [forRounds, if_pos hruns, after_eachValue_cons]
    exact (outlasts_job (by omega) (.body loop.2.2) place [] _).bind fun round =>
      ih (by omega) _ round.2.pop

end

/-- **A counting loop is its body, once for each value that it visits.** -/
theorem endsWith_forLoop {place : Place} {scope : Scope} {pos : Position}
    {var first bound step unit : Text} {inclusive : Bool} {body : List Statement}
    {f : Span Float} {xs : List Float}
    (hspan : span (scope.context settings.palette) first bound step inclusive = .ok (f, unit))
    (hvisits : f.Visits f.first xs) (state : Status σ)
    (outcome : Except Stop (List Css × Scope) × Status σ) :
    EndsWith (fun fuel => statement settings fuel place scope
        (.forLoop pos var first bound inclusive step body)) state outcome ↔
      EndsWith (fun fuel => eachValue settings fuel place ⟨var, unit, body⟩ scope xs)
        state outcome := by
  have hloop : ∀ fuel, statement settings (fuel + 1) place scope
      (.forLoop pos var first bound inclusive step body) =
        forRounds settings fuel place [] scope f f.first ⟨var, unit, body⟩ := by
    intro fuel
    rw [statement, hspan]
    rfl
  have hafter : ∀ fuel, after [] <$> eachValue settings fuel place ⟨var, unit, body⟩ scope xs =
      eachValue settings fuel place ⟨var, unit, body⟩ scope xs := by
    intro fuel
    exact id_map _
  constructor
  · intro h
    refine h.of_outlasts fun fuel => ?_
    cases fuel with
    | zero => exact ⟨0, .dry _⟩
    | succ fuel =>
      refine ⟨fuel, ?_⟩
      rw [hloop, ← hafter]
      exact eachValue_outlasts hvisits le_rfl [] scope
  · intro h
    refine h.of_outlasts fun fuel => ⟨fuel + xs.length + 1 + 1, ?_⟩
    rw [hloop, ← hafter]
    exact forRounds_outlasts hvisits (by omega) [] scope

theorem of_span_eq_ok {ctx : Script.Context} {first bound step unit : Text} {inclusive : Bool}
    {f : Span Float} (h : span ctx first bound step inclusive = .ok (f, unit)) :
    f.inclusive = inclusive ∧ (f.step == 0) = false := by
  rw [span] at h
  obtain ⟨a, -, h⟩ := Outcome.of_bind_eq_ok h
  obtain ⟨b, -, h⟩ := Outcome.of_bind_eq_ok h
  obtain ⟨c, -, h⟩ := Outcome.of_bind_eq_ok h
  obtain ⟨b', -, h⟩ := Outcome.of_bind_eq_ok h
  obtain ⟨c', -, h⟩ := Outcome.of_bind_eq_ok h
  by_cases hzero : (c'.value == 0) = true
  · rw [if_pos hzero] at h
    cases h
  · rw [if_neg hzero] at h
    cases h
    exact ⟨rfl, by simpa using hzero⟩

/-- **The rounds of a counting loop.** It visits `first + k · direction · |step|` for the `k` from
zero on with which the bound is not reached or, if it is inclusive, not overstepped by one or more.
For whole numbers the latter are those up to and including the bound. Where the numbers are doubles,
the loop expands to its body, once for each of these values. -/
theorem forLoop_visits {scope : Scope} {first bound step unit : Text} {inclusive : Bool}
    {f : Span Float} {r : Span ℚ}
    (hspan : span (scope.context settings.palette) first bound step inclusive = .ok (f, unit))
    (hreads : f.Reads r) :
    r.Visits r.first ((List.range r.rounds).map r.value) ∧
      (∀ k, k < r.rounds ↔
        r.direction * r.value k < r.direction * r.bound + if inclusive then 1 else 0) ∧
      ((∃ a b c : ℤ, r.first = a ∧ r.bound = b ∧ r.step = c) → inclusive = true →
        ∀ k, k < r.rounds ↔ r.direction * r.value k ≤ r.direction * r.bound) ∧
      (Span.IsDouble r.stop → (∀ k < r.rounds, Span.IsDouble (r.value (k + 1))) →
        ∃ xs : List Float, xs.map Decimal.toRat? = (List.range r.rounds).map (some ∘ r.value) ∧
          ∀ pos var body place state outcome,
            EndsWith (fun fuel => statement settings fuel place scope
                (.forLoop pos var first bound inclusive step body)) state outcome ↔
              EndsWith (fun fuel => eachValue settings fuel place ⟨var, unit, body⟩ scope xs)
                state outcome) := by
  obtain ⟨hinclusive, hzero⟩ := of_span_eq_ok hspan
  rw [hreads.inclusive] at hinclusive
  have hstep := Decimal.ne_zero_of_beq hreads.step hzero
  have hvisits := Span.visits_rounds hstep
  have hrounds : ∀ k, k < r.rounds ↔
      r.direction * r.value k < r.direction * r.bound + if inclusive then 1 else 0 := by
    intro k
    rw [Span.lt_rounds_iff hstep, Span.runs, decide_eq_true_iff, Span.direction_mul_stop,
      hinclusive]
  refine ⟨hvisits, hrounds, ?_, ?_⟩
  · rintro ⟨a, b, c, ha, hb, hc⟩ rfl k
    rw [hrounds, if_pos rfl, Span.lt_add_one_iff_of_int ha hb hc]
  · intro hstop hdoubles
    obtain ⟨xs, hxs, hread⟩ := hreads.exists_visits hstop hvisits (by
      intro p hp
      obtain ⟨k, hk, rfl⟩ := List.mem_map.1 hp
      rw [Span.next_value]
      exact hdoubles k (List.mem_range.1 hk)) hreads.first
    refine ⟨xs, by rw [hread, List.map_map], ?_⟩
    intro pos var body place state outcome
    exact endsWith_forLoop hspan hxs state outcome

/-- From two down to a half there are two rounds, whatever the sign of the step. -/
theorem forLoop_visits_downwards :
    let settings : Settings Unit := ⟨.html4, [], none⟩
    let f : Span Float := ⟨2, 0.5, -1, false⟩
    let r : Span ℚ := ⟨2, 1 / 2, -1, false⟩
    span (Scope.empty.context settings.palette) "2" "0.5" "-1" false = .ok (f, []) ∧ f.Reads r ∧
      r.Visits 2 [2, 1] ∧
      ∃ xs : List Float, xs.map Decimal.toRat? = [some 2, some 1] ∧
        ∀ pos var body place state outcome,
          EndsWith (fun fuel => statement settings fuel place .empty
              (.forLoop pos var "2" "0.5" false "-1" body)) state outcome ↔
            EndsWith (fun fuel => eachValue settings fuel place ⟨var, [], body⟩ .empty xs)
              state outcome := by
  intro settings f r
  have hspan : span (Scope.empty.context settings.palette) "2" "0.5" "-1" false = .ok (f, []) := by
    with_unfolding_all rfl
  have htwo : Decimal.Dyadic.ofFloat? 2 = some ⟨false, 2 ^ 52, -51⟩ := by decide +kernel
  have hhalf : Decimal.Dyadic.ofFloat? 0.5 = some ⟨false, 2 ^ 52, -53⟩ := by decide +kernel
  have hreads : f.Reads r := by
    refine ⟨Decimal.toRat?_of_parts htwo ?_, Decimal.toRat?_of_parts hhalf ?_,
      Decimal.toRat?_neg Decimal.toRat?_one, rfl⟩
    · norm_num [Decimal.Dyadic.toRat, Decimal.Dyadic.sign, Sign.apply]
    · norm_num [Decimal.Dyadic.toRat, Decimal.Dyadic.sign, Sign.apply]
  have hrounds : r.rounds = 2 := by decide +kernel
  have hvalues : (List.range 2).map r.value = [2, 1] := by decide +kernel
  obtain ⟨hvisits, -, -, hdoubles⟩ := forLoop_visits hspan hreads
  rw [hrounds, hvalues] at hvisits
  rw [hrounds] at hdoubles
  have hnext : ∀ k < 2, Span.IsDouble (r.value (k + 1)) := by
    intro k hk
    obtain rfl | rfl : k = 0 ∨ k = 1 := by omega
    · have hone : r.value (0 + 1) = 1 := by decide +kernel
      exact ⟨1, hone ▸ Decimal.toRat?_one⟩
    · have hzero : r.value (1 + 1) = 0 := by decide +kernel
      exact ⟨0, hzero ▸ Decimal.toRat?_zero⟩
  obtain ⟨xs, hread, hends⟩ := hdoubles ⟨0.5, hreads.bound⟩ hnext
  refine ⟨hspan, hreads, hvisits, xs, ?_, hends⟩
  rw [hread, ← List.map_map, hvalues]
  rfl

/-- An inclusive bound is overstepped: a loop from 1 through 2.5 goes on to 3. -/
theorem visits_beyond_bound :
    let r : Span ℚ := ⟨1, 5 / 2, 1, true⟩
    let f : Span Float := ⟨1, 2.5, 1, true⟩
    span (Scope.empty.context .html4) "1" "2.5" "1" true = .ok (f, []) ∧
      f.Visits f.first [1, 2, 3] ∧ f.Reads r ∧ r.Visits r.first [1, 2, 3] ∧
      ¬r.direction * 3 ≤ r.direction * r.bound := by
  intro r f
  have hspan : span (Scope.empty.context .html4) "1" "2.5" "1" true = .ok (f, []) := by
    with_unfolding_all rfl
  have hbound : Decimal.Dyadic.ofFloat? 2.5 = some ⟨false, 5 * 2 ^ 50, -51⟩ := by decide +kernel
  have hreads : f.Reads r := by
    refine ⟨Decimal.toRat?_one, Decimal.toRat?_of_parts hbound ?_, Decimal.toRat?_one, rfl⟩
    norm_num [Decimal.Dyadic.toRat, Decimal.Dyadic.sign, Sign.apply]
  refine ⟨hspan, ?_, hreads, ?_, ?_⟩
  · have htwo : f.next 1 = 2 := by decide +kernel
    have hthree : f.next 2 = 3 := by decide +kernel
    refine .round (by decide +kernel) ?_
    rw [htwo]
    refine .round (by decide +kernel) ?_
    rw [hthree]
    exact .round (by decide +kernel) (.stop (by decide +kernel))
  · have htwo : r.next 1 = 2 := by decide +kernel
    have hthree : r.next 2 = 3 := by decide +kernel
    refine .round (by decide +kernel) ?_
    rw [htwo]
    refine .round (by decide +kernel) ?_
    rw [hthree]
    exact .round (by decide +kernel) (.stop (by decide +kernel))
  · norm_num [Span.direction, r]

end Expand

end IndentedSass
