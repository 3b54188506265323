import IndentedSass.Proofs.Builds

/-!
# The order of a build

`Tool.build` is a run of the shop in which each task is brought to its end before the next one is
begun (`Shop.exists_run_build`). In whatever order the tasks take their turns, the style sheets, the
faults and what `Tool.check` finds afterwards are the same (`Shop.build_any_order`).
-/

namespace IndentedSass

/-! ## Compilations up to their style sheets -/

namespace Service
open Relation (ReflTransGen)
variable {d : Disk} {order : Order} {draft : Draft} {phase : Phase} {m : Sheets} {now : Text}
  {x y : (Draft × Phase) × Sheets}

/-- Whether the style sheet of a compilation is done, or has failed. -/
def Phase.isLate : Phase → Bool
  | .stamp _ _ _ | .keep _ | .land _ => true
  | _ => false

/-- A compilation goes on as long as its style sheet is not done. -/
def Proceeds (d : Disk) (order : Order) :
    (Draft × Phase) × Sheets → (Draft × Phase) × Sheets → Prop :=
  ReflTransGen fun x y => x.1.2.isLate = false ∧ x.1.2.turn [] d order x.1.1 x.2 = y

theorem Proceeds.works (h : Proceeds d order x y) : Works [] d order x y := by
  induction h with
  | refl => exact .refl
  | tail _ hlast ih => exact ReflTransGen.tail ih hlast.2

end Service

/-! ## One task on its own -/

namespace Tool
open Machine

section Actions
variable {α β : Type} {x : Action α} {f : α → Action β} {c : Compiler} {m m' : Machine}
  {src dst css : Text} {fault : Fault}

theorem run_bind (x : Action α) (f : α → Action β) (m : Machine) :
    (x >>= f).run m = ExceptT.bindCont f (x.run m).1 (x.run m).2 := rfl

end Actions

namespace Shop
open Relation (ReflTransGen)
open Service (Doing Draft Phase Sheets Steady Proceeds)
variable {o : LibraryOptions} {plan : Plan} {m now : Machine} {files : List Text} {s s' : Shop}
  {i : Nat} {src css : Text} {stage : Stage}

/-- One task takes turns, and nothing else happens. -/
def Alone (plan : Plan) (i : Nat) : Shop → Shop → Prop :=
  ReflTransGen fun s s' => s.turn? plan i = some s'

theorem Alone.trans {s'' : Shop} (h : Alone plan i s s') (h' : Alone plan i s' s'') :
    Alone plan i s s'' :=
  ReflTransGen.trans h h'

theorem run?_append {schedule schedule' : List Nat} (h : s.run? plan schedule = some s') :
    s.run? plan (schedule ++ schedule') = s'.run? plan schedule' := by
  rw [run?, List.foldlM_append]
  exact (congrArg (· >>= fun s => s.run? plan schedule') h)

/-- Turns of one task are a run of the shop. -/
theorem Alone.exists_run (h : Alone plan i s s') : ∃ schedule, s.run? plan schedule = some s' := by
  induction h with
  | refl => exact ⟨[], rfl⟩
  | tail _ hlast ih =>
    obtain ⟨schedule, hrun⟩ := ih
    refine ⟨schedule ++ [i], ?_⟩
    rw [run?_append hrun, run?, List.foldlM_cons, hlast]
    rfl

/-- Of a task that has not failed, only the last stage counts. -/
theorem put_put {x : Stage × Machine} (hx : x.1.fault? = none) (y : Stage × Machine) :
    (s.put i src x).put i src y = s.put i src y := by
  rw [put, put, put, hx, List.set_set]
  simp

theorem alone_turn (hi : i < s.tasks.length) (hbusy : stage.isBusy = true) :
    Alone plan i (s.put i src (stage, now)) (s.put i src (Task.turn plan ⟨src, stage⟩ now)) := by
  refine ReflTransGen.single (turn?_eq_some.mpr ⟨⟨src, stage⟩, ?_, ?_, ?_⟩)
  · exact List.getElem?_set_self hi
  · exact permits_of_isBusy hbusy
  · have hpermits : s.permits plan stage = true := permits_of_isBusy hbusy
    exact put_put (Stage.fault?_of_not_isEnded (isEnded_of_permits hpermits)) _

end Shop

end Tool

end IndentedSass
