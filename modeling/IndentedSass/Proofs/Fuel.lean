import IndentedSass.Proofs.Course

/-!
# Fuel

The fuel of an expansion bounds how long it may take and has no other effect: an expansion that
ends before its fuel does ends in the same way with any larger supply (`source_outlasts`). Only
jobs take fuel. What a statement does on its own never runs out of it (`enter_costless`).
-/

namespace IndentedSass.Expand
variable {σ α β : Type} {settings : Settings σ}

/-! ## More fuel -/

/-- `n` ends as `m` does, from every state from which `m` has enough fuel. -/
def Outlasts (n m : Run σ α) : Prop :=
  ∀ s, (m.run s).1 ≠ .error .outOfFuel → n.run s = m.run s

namespace Outlasts
variable {l m n : Run σ α}

theorem refl (m : Run σ α) : Outlasts m m := fun _ _ => rfl

theorem trans (h : Outlasts n m) (h' : Outlasts m l) : Outlasts n l := by
  intro s hs
  have hm : m.run s = l.run s := h' s hs
  rw [h s (hm ▸ hs), hm]

/-- Nothing has to be shown for a computation without fuel. -/
theorem dry (n : Run σ α) : Outlasts n (throw .outOfFuel) := fun _ hs => absurd rfl hs

/-- Outlasting goes through steps done one after the other, since a first step that has ended is the
same for both. -/
theorem bind (h : Outlasts n m) {f g : α → Run σ β} (hg : ∀ a, Outlasts (g a) (f a)) :
    Outlasts (n >>= g) (m >>= f) := by
  intro s hs
  have hm : (m.run s).1 ≠ .error .outOfFuel := by
    intro hdry
    obtain ⟨s', hrun⟩ : ∃ s', m.run s = (.error .outOfFuel, s') := ⟨_, Prod.ext hdry rfl⟩
    exact hs (by rw [run_bind, hrun])
  rw [run_bind] at hs
  rw [run_bind, run_bind, h s hm]
  rcases hrun : m.run s with ⟨stop | a, s'⟩
  · rfl
  · rw [hrun] at hs
    exact hg a s' hs

theorem map (h : Outlasts n m) (f : α → β) : Outlasts (f <$> n) (f <$> m) := by
  rw [map_eq_pure_bind, map_eq_pure_bind]
  exact h.bind fun a => .refl (pure (f a))

theorem locating (h : Outlasts n m) (pos : Position) :
    Outlasts (locating pos n) (locating pos m) := by
  intro s hs
  have hm : (m.run s).1 ≠ .error .outOfFuel := by
    intro hdry
    exact hs (by rw [run_locating, hdry]; rfl)
  rw [run_locating, run_locating, h s hm]

theorem closing {m n : Run (Status σ) α} (h : Outlasts n m) :
    Outlasts (closing n) (closing m) := by
  intro s hs
  rw [run_closing, run_closing, h s hs]

/-- It does not matter what becomes of the stack in the end, as it is the same for both. -/
theorem onStack {m n : Run (Status σ) α} (h : Outlasts n m) (files : List Text) :
    Outlasts (onStack files n) (onStack files m) := by
  intro s hs
  rw [run_onStack, run_onStack, h ⟨files, s⟩ hs]

end Outlasts

/-- The step: one more unit of fuel. The induction is on the fuel that is there. -/
theorem outlasts_succ (settings : Settings σ) (fuel : Nat) :
    (∀ place scope s, Outlasts (statement settings (fuel + 1) place scope s)
      (statement settings fuel place scope s)) ∧
    ∀ (job : Job) place done scope, Outlasts (job.run settings (fuel + 1) place done scope)
      (job.run settings fuel place done scope) := by
  induction fuel with
  | zero =>
    refine ⟨fun place scope s => .dry _, fun job place done scope => ?_⟩
    cases job <;> exact .dry _
  | succ fuel ih =>
    refine ⟨fun place scope s => ?_, fun job place done scope => ?_⟩
    · rw [statement_succ, statement_succ]
      -- entering takes no fuel, so only the job that is opened counts
      refine (Outlasts.refl _).bind fun turn => ?_
      cases turn with
      | done css scope => exact .refl _
      | opens o =>
        have hjob := ih.2 o.job o.place [] o.scope
        refine Outlasts.map ?_ o.close
        rw [Opening.run, Opening.run]
        split
        · exact hjob.closing
        · exact hjob
    · cases job with
      | body ss =>
        cases ss with
        | nil => exact .refl _
        | cons s rest =>
          rw [Job.run, Job.run, statements, statements]
          exact ((ih.1 place scope s).locating s.pos).bind fun r => ih.2 (.body rest) place _ r.2
      | count r x loop =>
        rw [Job.run, Job.run, forRounds, forRounds]
        split
        · exact (ih.2 (.body loop.2.2) place [] _).bind fun round =>
            ih.2 (.count r (r.next x) loop) place _ round.2.pop
        · exact .refl _
      | repeated test untested ss =>
        rw [run_repeated_succ, run_repeated_succ]
        refine (Outlasts.refl _).bind fun goes => ?_
        split
        · exact (ih.2 (.body ss) place [] scope).bind fun round =>
            ih.2 (.repeated test false ss) place _ round.2
        · exact .refl _

theorem outlasts_job {fuel more : Nat} (h : fuel ≤ more) (job : Job) (place : Place)
    (done : List Css) (scope : Scope) :
    Outlasts (job.run settings more place done scope) (job.run settings fuel place done scope) := by
  induction h with
  | refl => exact .refl _
  | step _ ih => exact ((outlasts_succ settings _).2 job place done scope).trans ih

/-- A computation that never runs out of fuel. -/
def Costless (m : Run σ α) : Prop := ∀ s, (m.run s).1 ≠ .error .outOfFuel

theorem Costless.bind {m : Run σ α} {f : α → Run σ β} (hm : Costless m)
    (hf : ∀ a, Costless (f a)) : Costless (m >>= f) := by
  intro s
  rw [run_bind]
  have hfirst := hm s
  rcases hrun : m.run s with ⟨stop | a, s'⟩
  · rw [hrun] at hfirst
    exact fun h => hfirst (by cases h; rfl)
  · exact hf a s'

end IndentedSass.Expand
