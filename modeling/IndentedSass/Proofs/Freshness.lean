import IndentedSass.Proofs.Interleaving
import Mathlib.Data.Nat.Pairing

/-!
# No stale sheets

A call that starts after the last write ends, and it answers what a new compiler with a new library
makes of the files as they are now (`Sheets.fromScratch`). How calls and writes overlapped before
that makes no difference, with one exception. A file must not be written between the moment
at which a compilation loads it and the end of that compilation. If it is, the sheet is kept with
times that are younger than the texts it was made from, and goes on being served.

Times are compared in nanoseconds, as numbers of 64 bits. So a write has to give its file a time
that differs from all former ones in that form, too. The third condition is that no path has a zero
byte. At the end there is an example of what happens without each of them.

That calls end is shown for schedules in which every call gets turns again and again. Whatever
others do meanwhile, a compilation takes finitely many turns (`Doing.closes`), and a call that waits
is waiting for one that compiles or has ended.
-/

namespace IndentedSass

namespace Service

namespace System
variable {o : SheetOptions} {lib : Library} {seen : List Disk} {s : System} {i k n : Nat}
  {call : Call} {order : Order} {name style : Text} {f : Nat → Event}

/-! ## Schedules -/

/-- A system after the first events of an endless schedule. -/
def after (s : System) (f : Nat → Event) : Nat → System
  | 0 => s
  | n + 1 => (s.after f n).step (f n)

/-- Nothing is written any more, and every call gets its turns. -/
structure IsFair (f : Nat → Event) : Prop where
  quiet : ∀ n, (f n).isWrite = false
  turns : ∀ i n, ∃ n', n ≤ n' ∧ ∃ now, f n' = .turn i now

/-- A schedule that comes to every call again and again. -/
def everyTurn (n : Nat) : Event := .turn n.unpair.1 []

/-- Giving every call a turn in turn is fair. -/
theorem isFair_everyTurn : IsFair everyTurn where
  quiet _ := rfl
  turns i n := ⟨Nat.pair i n, Nat.right_le_pair i n, [], by rw [everyTurn, Nat.unpair_pair]⟩

theorem disk_after (hf : IsFair f) (s : System) (n : Nat) : (s.after f n).disk = s.disk := by
  induction n with
  | zero => rfl
  | succ n ih => exact (disk_step (hf.quiet n) _).trans ih

/-- Turns keep the system right. The induction is on their number. -/
theorem Right.after (hlib : lib.Rooted) (hf : IsFair f) (h : s.Right o lib seen) (n : Nat) :
    (s.after f n).Right o lib seen := by
  induction n with
  | zero => exact h
  | succ n ih => exact ih.step_of_not_isWrite hlib (hf.quiet n)

/-- Turns keep the calls served. -/
theorem Serves.after (hlib : lib.Rooted) (hf : IsFair f) (h : s.Right o lib seen)
    (hserves : s.Serves o lib seen k) (n : Nat) : (s.after f n).Serves o lib seen k := by
  induction n with
  | zero => exact hserves
  | succ n ih => exact ih.step hlib (h.after hlib hf n) (hf.quiet n)

/-- A call keeps its stage until its next turn comes. -/
theorem exists_turn (hf : IsFair f) (hcall : (s.after f n).calls[i]? = some call) :
    ∃ n', n ≤ n' ∧ (s.after f n').calls[i]? = some call ∧ ∃ now, f n' = .turn i now := by
  -- the first turn from `n` on is no later than the one that fairness promises
  obtain ⟨last, hlast, hturn⟩ := hf.turns i n
  obtain ⟨gap, rfl⟩ := Nat.exists_eq_add_of_le hlast
  clear hlast
  induction gap generalizing n with
  | zero => exact ⟨n, Nat.le_refl n, hcall, hturn⟩
  | succ gap ih =>
    by_cases hnow : ∃ now, f n = .turn i now
    · exact ⟨n, Nat.le_refl n, hcall, hnow⟩
    · have hnext : (s.after f (n + 1)).calls[i]? = some call :=
        getElem?_step_of_ne (fun now h => hnow ⟨now, h⟩) hcall
      rw [← Nat.add_assoc, Nat.add_right_comm] at hturn
      obtain ⟨n', hn', hfound⟩ := ih hnext hturn
      exact ⟨n', by omega, hfound⟩

/-- A call has ended at a certain time or later. -/
def EndsAfter (s : System) (f : Nat → Event) (i n : Nat) : Prop :=
  ∃ n' call result, n ≤ n' ∧ (s.after f n').calls[i]? = some call ∧ call.stage = .ended result

theorem EndsAfter.mono {n' : Nat} (h : s.EndsAfter f i n') (hn : n ≤ n') : s.EndsAfter f i n := by
  obtain ⟨n'', call, result, hn'', hended⟩ := h
  exact ⟨n'', call, result, by omega, hended⟩

section Ending
variable (hlib : lib.Rooted) (hf : IsFair f) (h : s.Right o lib seen)
include hlib hf h

/-- A call that has not ended moves at some time, since it gets a turn. -/
theorem exists_move (hcall : (s.after f n).calls[i]? = some call) :
    ∃ n' stage, n ≤ n' ∧ (s.after f n').calls[i]? = some call ∧
      (s.after f (n' + 1)).calls[i]? = some { call with stage } ∧
      Moves o lib seen s.disk (s.after f n').calls call.name call.style call.stage stage := by
  obtain ⟨n', hn', hcall', now, hturn⟩ := exists_turn hf hcall
  obtain ⟨stage, hstage, hmoves⟩ := (h.after hlib hf n').turn_step hlib hcall' now
  rw [← hturn] at hstage
  rw [disk_after hf] at hmoves
  exact ⟨n', stage, hn', hcall', hstage, hmoves⟩

/-- What no move of a call changes stays. -/
theorem call_persists {P : Stage → Prop} (hcall : (s.after f n).calls[i]? = some call)
    (hP : P call.stage) (hmoves : ∀ calls stage stage', P stage →
      Moves o lib seen s.disk calls call.name call.style stage stage' → P stage')
    {n' : Nat} (hn' : n ≤ n') :
    ∃ stage, (s.after f n').calls[i]? = some { call with stage } ∧ P stage := by
  induction hn' with
  | refl => exact ⟨call.stage, hcall, hP⟩
  | @step m _ ih =>
    obtain ⟨stage, hstage, hPstage⟩ := ih
    obtain ⟨stage', hstage', hmove⟩ := (h.after hlib hf m).call_step hlib (f m) hstage
    rw [disk_after hf] at hmove
    refine ⟨stage', hstage', ?_⟩
    rcases hmove with rfl | hmove
    · exact hPstage
    · exact hmoves _ _ _ hPstage hmove

/-- A compilation ends, since it can take only finitely many steps. The induction is on these. -/
theorem compiling_ends {x : Draft × Phase} (hx : Closes lib seen s.disk order x)
    (hcall : (s.after f n).calls[i]? = some ⟨name, style, .compiling order x.1 x.2⟩) :
    s.EndsAfter f i n := by
  induction hx generalizing n with
  | intro x _ ih =>
    obtain ⟨draft, phase⟩ := x
    obtain ⟨n', stage, hn', -, hstage, hmoves⟩ := exists_move hlib hf h hcall
    cases hmoves with
    | works goes => exact (ih _ goes hstage).mono (by omega)
    | lands => exact ⟨n' + 1, _, _, by omega, hstage, rfl⟩

/-- A call that leads is compiling or has ended, so it ends. -/
theorem exists_end_of_leads {leader : Call} (hcall : (s.after f n).calls[i]? = some leader)
    (hleads : Leads lib s.disk order leader.stage) : s.EndsAfter f i n := by
  have hright := (h.after hlib hf n).calls leader (List.mem_of_getElem? hcall)
  rw [disk_after hf] at hright
  obtain ⟨name, style, stage⟩ := leader
  cases hleads with
  | compiling =>
    cases hright with | compiling make doing => exact compiling_ends hlib hf h doing.closes hcall
  | ended answer => exact ⟨n, _, _, Nat.le_refl n, hcall, rfl⟩

/-- A call that waits ends after the one that it waits for. -/
theorem waiting_ends {j : Nat} {leader : Call}
    (hcall : (s.after f n).calls[i]? = some ⟨name, style, .waiting order j⟩)
    (hleader : (s.after f n).calls[j]? = some leader)
    (hleads : Leads lib s.disk order leader.stage) : s.EndsAfter f i n := by
  obtain ⟨n₁, leader₁, result₁, hn₁, hleader₁, hended₁⟩ :=
    exists_end_of_leads hlib hf h hleader hleads
  -- until then the call has waited on, or has got the result already
  obtain ⟨stage, hstage, rfl | ⟨result, rfl⟩⟩ := @call_persists o lib seen s i n _ f hlib hf h
    (fun stage => stage = .waiting order j ∨ ∃ result, stage = .ended result) hcall (.inl rfl)
    (by
      rintro calls _ _ (rfl | ⟨result, rfl⟩) hmoves
      · cases hmoves with
        | gets => exact .inr ⟨_, rfl⟩
        | waits => exact .inl rfl
      · cases hmoves
        exact .inr ⟨_, rfl⟩) n₁ hn₁
  · obtain ⟨n₂, stage₂, hn₂, -, hstage₂, hmoves⟩ := exists_move hlib hf h hstage
    -- and the leader is still at its end when the next turn comes
    obtain ⟨_, hleader₂, result₂, rfl⟩ := @call_persists o lib seen s j n₁ _ f hlib hf h
      (fun stage => ∃ result, stage = .ended result) hleader₁ ⟨result₁, hended₁⟩
      (by
        rintro calls _ _ ⟨result, rfl⟩ hmoves
        cases hmoves
        exact ⟨_, rfl⟩) n₂ hn₂
    cases hmoves with
    | gets => exact ⟨n₂ + 1, _, _, by omega, hstage₂, rfl⟩
    | waits busy => exact absurd rfl (busy _ result₂ hleader₂)
  · exact ⟨n₁, _, _, hn₁, hstage, rfl⟩

section Late
variable (hserves : s.Serves o lib seen k) (hi : k ≤ i)
include hserves hi

/-- A served call that waits does so for one that leads. -/
theorem waiting_ends_of_serves {j : Nat}
    (hcall : (s.after f n).calls[i]? = some ⟨name, style, .waiting order j⟩) :
    s.EndsAfter f i n := by
  have hserved := hserves.after hlib hf h n i _ hi hcall
  rw [disk_after hf] at hserved
  cases hserved with | waiting mem leads => exact waiting_ends hlib hf h hcall mem leads

/-- A call that has missed compiles or waits. -/
theorem missed_ends (hcall : (s.after f n).calls[i]? = some ⟨name, style, .missed order⟩) :
    s.EndsAfter f i n := by
  obtain ⟨n', stage, hn', -, hstage, hmoves⟩ := exists_move hlib hf h hcall
  cases hmoves with
  | joins leader =>
    exact (waiting_ends_of_serves hlib hf h hserves hi hstage).mono (by omega)
  | starts => exact (compiling_ends hlib hf h (Doing.resolve .first).closes hstage).mono (by omega)

/-- The induction is on the times that are still to be compared. -/
theorem checking_ends {entry : Nat × Sheet} {rest : List (Text × Int)}
    (hcall : (s.after f n).calls[i]? = some ⟨name, style, .checking order entry rest⟩) :
    s.EndsAfter f i n := by
  induction rest generalizing n with
  | nil =>
    obtain ⟨n', stage, hn', -, hstage, hmoves⟩ := exists_move hlib hf h hcall
    cases hmoves
    exact ⟨n' + 1, _, _, by omega, hstage, rfl⟩
  | cons noted rest ih =>
    obtain ⟨n', stage, hn', -, hstage, hmoves⟩ := exists_move hlib hf h hcall
    cases hmoves with
    | current => exact (ih hstage).mono (by omega)
    | stale => exact (missed_ends hlib hf h hserves hi hstage).mono (by omega)

/-- A call that has come in is refused, checks or misses, and all of that ends. -/
theorem called_ends (hcall : (s.after f n).calls[i]? = some ⟨name, style, .called⟩) :
    s.EndsAfter f i n := by
  obtain ⟨n', stage, hn', -, hstage, hmoves⟩ := exists_move hlib hf h hcall
  cases hmoves with
  | refused => exact ⟨n' + 1, _, _, by omega, hstage, rfl⟩
  | misses => exact (missed_ends hlib hf h hserves hi hstage).mono (by omega)
  | checks => exact (checking_ends hlib hf h hserves hi hstage).mono (by omega)

/-- **Every call that starts after the last write ends.** -/
theorem ends_of_serves (hcall : (s.after f n).calls[i]? = some call) : s.EndsAfter f i n := by
  have hright := (h.after hlib hf n).calls call (List.mem_of_getElem? hcall)
  rw [disk_after hf] at hright
  obtain ⟨name, style, stage⟩ := call
  cases hright with
  | called => exact called_ends hlib hf h hserves hi hcall
  | checking make => exact checking_ends hlib hf h hserves hi hcall
  | missed make => exact missed_ends hlib hf h hserves hi hcall
  | waiting make => exact waiting_ends_of_serves hlib hf h hserves hi hcall
  | compiling make doing => exact compiling_ends hlib hf h doing.closes hcall
  | ended => exact ⟨n, _, _, Nat.le_refl n, hcall, rfl⟩

end Late

end Ending

end System

/-! ## From scratch -/

/-- What a new compiler with a new library makes of the file of a sheet. -/
def Sheets.fromScratch (o : Options) (lib : Library) (d : Disk) (name style : Text) :
    Except Fault Text :=
  let style := if style.isEmpty then o.style else style
  match (Style.ofName? style).map (compilerFor o) with
  | none => .error (.invalid ("unknown style: " ++ style))
  | some (.error fault) => .error fault
  | some (.ok c) =>
    (c.compileFile (fileOf o.templateLocation name) ⟨d, lib, []⟩).1.css.mapError Expand.Stop.toFault

/-- An instance that is made for one request compiles anew. -/
theorem Sheets.fromScratch_eq {lib : Library} {d : Disk} (hlib : lib.Rooted) (hclear : d.IsClear)
    (htrees : lib.trees.items = []) (hresolved : lib.resolved.items = []) (o : SheetOptions)
    (name style : Text) : fromScratch o.options lib d name style =
      Order.make o name style >>= fun order => order.answer lib d := by
  unfold fromScratch Order.make
  dsimp only
  generalize (if style.isEmpty then o.options.style else style) = style
  rcases (Style.ofName? style).map (compilerFor o.options) with _ | (fault | c)
  · rfl
  · rfl
  · dsimp only
    rw [Compiler.compileFile_eq_anew hlib hclear htrees hresolved]
    rfl

/-- What a call has answered. -/
def Call.answer? (call : Call) : Option (Except Fault Text) :=
  match call.stage with
  | .ended result => some (result.map fun entry => entry.2.css)
  | _ => none

theorem Call.answer?_eq_some {call : Call} {answer : Except Fault Text}
    (h : call.answer? = some answer) :
    ∃ result, call.stage = .ended result ∧ result.map (fun entry => entry.2.css) = answer := by
  unfold answer? at h
  split at h
  · exact ⟨_, ‹_›, Option.some.inj h⟩
  · cases h

end Service

namespace Library

/-- A library that has not been used. What it leaves open may be chosen in any way. -/
inductive IsNew : Library → Prop
  | inMemory (o : LibraryOptions) (choices : Choices) : IsNew ((inMemory o).choosing choices)
  | onMachine (o : LibraryOptions) (workDir : Text) (choices : Choices) :
    IsNew ((onMachine o workDir).choosing choices)

variable {lib : Library}

theorem isNew_inMemory (o : LibraryOptions) : (inMemory o).IsNew := .inMemory o .plain

theorem IsNew.rooted (h : lib.IsNew) : lib.Rooted := by
  cases h with
  | inMemory o choices => exact (rooted_inMemory o).choosing choices
  | onMachine o workDir choices => exact (rooted_onMachine o workDir).choosing choices

theorem IsNew.trees (h : lib.IsNew) : lib.trees.items = [] := by
  cases h <;> rfl

theorem IsNew.resolved (h : lib.IsNew) : lib.resolved.items = [] := by
  cases h <;> rfl

end Library

namespace Service

/-! ## The theorem -/

theorem Sheets.of_new {setup : SheetOptions} {lib : Library} {m : Sheets}
    (h : new setup lib = .ok m) : m.library = lib ∧ m.kept.items = [] := by
  unfold new at h
  dsimp only at h
  split at h
  · cases h
  · obtain ⟨_, -, h⟩ := Outcome.of_bind_eq_ok h
    cases h
    exact ⟨rfl, rfl⟩

namespace System
variable {setup : SheetOptions} {lib : Library} {m : Sheets} {d : Disk}

/-- A new system is right about its disk. -/
theorem right_new (hlib : lib.IsNew) (hm : Sheets.new setup lib = .ok m) (hd : d.IsClear) :
    Right m.setup lib [d] ⟨m, d, []⟩ := by
  obtain ⟨hlibrary, hkept⟩ := Sheets.of_new hm
  refine ⟨List.mem_cons_self, List.forall_mem_singleton.mpr (.refl d), hd, ?_,
    List.forall_mem_nil _⟩
  refine ⟨rfl, ?_, ?_⟩
  · rw [hlibrary]
    exact Library.right_of_empty hlib.trees hlib.resolved
  · intro key entry hentry
    rw [hkept] at hentry
    cases hentry

theorem Serves.run (hlib : lib.Rooted) {o : SheetOptions} {seen : List Disk} {k : Nat} {s : System}
    {events : List Event} (h : s.Right o lib seen) (hserves : s.Serves o lib seen k)
    (hevents : ∀ event ∈ events, event.isWrite = false) :
    (s.run events).Right o lib seen ∧ (s.run events).Serves o lib seen k := by
  induction events generalizing s with
  | nil => exact ⟨h, hserves⟩
  | cons event events ih =>
    obtain ⟨hevent, hrest⟩ := List.forall_mem_cons.mp hevents
    exact ih (h.step_of_not_isWrite hlib hevent) (hserves.step hlib h hevent) hrest

/-- The answer of a served call is what the disk gives. -/
theorem Serves.answer_eq {o : SheetOptions} {seen : List Disk} {i k : Nat} {s : System}
    {call : Call} {answer : Except Fault Text} (h : s.Serves o lib seen k) (hi : k ≤ i)
    (hcall : s.calls[i]? = some call) (hanswer : call.answer? = some answer) :
    answer = Order.make o call.name call.style >>= fun order => order.answer lib s.disk := by
  have hserved := h i call hi hcall
  obtain ⟨result, hended, rfl⟩ := Call.answer?_eq_some hanswer
  rw [hended] at hserved
  cases hserved with | ended answer => exact answer

/-- A served call has an answer at some time. -/
theorem Serves.exists_answer {o : SheetOptions} {seen : List Disk} {i k : Nat} {s : System}
    {call : Call} {f : Nat → Event} (hlib : lib.Rooted) (hf : IsFair f) (h : s.Right o lib seen)
    (hserves : s.Serves o lib seen k) (hi : k ≤ i) (hcall : s.calls[i]? = some call) :
    ∃ n call', (s.after f n).calls[i]? = some call' ∧ call'.answer? =
      some (Order.make o call.name call.style >>= fun order => order.answer lib s.disk) := by
  obtain ⟨n, _, result, hn, hcall', hended⟩ :=
    @ends_of_serves o lib seen s i k 0 call f hlib hf h hserves hi hcall
  -- it is still the call with this name and style
  obtain ⟨stage, hstage, -⟩ := @call_persists o lib seen s i 0 call f hlib hf h (fun _ => True)
    hcall trivial (fun _ _ _ _ _ => trivial) n hn
  cases hcall'.symm.trans hstage
  have hanswer : Call.answer? { call with stage } =
      some (result.map fun entry => entry.2.css) := by
    unfold Call.answer?
    rw [hended]
  have hserved := (hserves.after hlib hf h n).answer_eq hi hstage hanswer
  rw [disk_after hf] at hserved
  exact ⟨n, _, hstage, hanswer.trans (congrArg some hserved)⟩

/-- What `Sheets.get` answers when the memory of the instance is right. -/
theorem Right.get_eq {o : SheetOptions} {seen : List Disk} {s : System} (hlib : lib.Rooted)
    (h : s.Right o lib seen) (name style now : Text) :
    (s.sheets.get name style ⟨s.disk, none, now⟩).1.map (fun entry => entry.2.css) =
      Order.make o name style >>= fun order => order.answer lib s.disk := by
  -- a single call on an instance that has no others
  have halone : Right o lib seen ⟨s.sheets, s.disk, []⟩ :=
    ⟨h.disk, h.earlier, h.clear, h.sheets, List.forall_mem_nil _⟩
  obtain ⟨n, hrun⟩ := @run_alone ⟨s.sheets, s.disk, []⟩ (List.forall_mem_nil _) name style now
  have hquiet : ∀ event ∈ Event.call name style :: List.replicate n (.turn 0 now),
      event.isWrite = false := by
    refine List.forall_mem_cons.mpr ⟨rfl, fun event hevent => ?_⟩
    rw [List.eq_of_mem_replicate hevent]
    rfl
  obtain ⟨-, hserves⟩ := (serves_length _).run hlib halone hquiet
  have hended : System.run ⟨s.sheets, s.disk, []⟩
      (.call name style :: List.replicate n (.turn 0 now)) = _ := hrun
  rw [hended] at hserves
  exact hserves.answer_eq (Nat.le_refl 0) rfl rfl

/-- **A call that starts after the last write answers what a new compiler with a new library makes
of the files as they are now**, and it does answer when every call gets its turns. So does
`Sheets.get`. Before that, calls and writes may have come in any order; but a write must have
respected the compilations under way. -/
theorem served_eq_fromScratch {before after : List Event} {i : Nat} {call : Call}
    (hlib : lib.IsNew) (hm : Sheets.new setup lib = .ok m) (hd : d.IsClear)
    (hbefore : Orderly [d] ⟨m, d, []⟩ before)
    (hafter : ∀ event ∈ after, event.isWrite = false)
    (hi : (run ⟨m, d, []⟩ before).calls.length ≤ i)
    (hcall : (run ⟨m, d, []⟩ (before ++ after)).calls[i]? = some call) :
    let s := run ⟨m, d, []⟩ (before ++ after)
    let scratch := Sheets.fromScratch m.setup.options lib s.disk call.name call.style
    (∀ answer, call.answer? = some answer → answer = scratch) ∧
      (∀ f, IsFair f → ∃ n call', (s.after f n).calls[i]? = some call' ∧
        call'.answer? = some scratch) ∧
      ∀ name style now, (s.sheets.get name style ⟨s.disk, none, now⟩).1.map
        (fun entry => entry.2.css) = Sheets.fromScratch m.setup.options lib s.disk name style := by
  intro s scratch
  have hrooted := hlib.rooted
  obtain ⟨seen, hearly⟩ := (right_new hlib hm hd).run hrooted hbefore
  obtain ⟨hright, hserves⟩ := (serves_length _).run hrooted hearly hafter
  have hs : (run ⟨m, d, []⟩ before).run after = s := (List.foldl_append ..).symm
  rw [hs] at hright hserves
  have hscratch : ∀ name style, Sheets.fromScratch m.setup.options lib s.disk name style =
      Order.make m.setup name style >>= fun order => order.answer lib s.disk :=
    Sheets.fromScratch_eq hrooted hright.clear hlib.trees hlib.resolved _
  refine ⟨fun answer hanswer => ?_, fun f hf => ?_, fun name style now => ?_⟩
  · exact (hserves.answer_eq hi hcall hanswer).trans (hscratch _ _).symm
  · obtain ⟨n, call', hcall', hanswer⟩ := hserves.exists_answer hrooted hf hright hi hcall
    exact ⟨n, call', hcall', hanswer.trans (congrArg some (hscratch _ _).symm)⟩
  · rw [hscratch]
    exact hright.get_eq hrooted name style now

/-- What a call of a new instance has answered after some events, unless that is a fault. -/
def answerIn (setup : SheetOptions) (lib : Library) (d : Disk) (events : List Event) (i : Nat) :
    Option Text := do
  let m ← (Sheets.new setup lib).toOption
  let call ← (run ⟨m, d, []⟩ events).calls[i]?
  let answer ← call.answer?
  answer.toOption

theorem of_answerIn {events : List Event} {i : Nat} {css : Text} (hm : Sheets.new setup lib = .ok m)
    (h : answerIn setup lib d events i = some css) :
    ∃ call, (run ⟨m, d, []⟩ events).calls[i]? = some call ∧ call.answer? = some (.ok css) := by
  rw [answerIn, hm] at h
  obtain ⟨_, hnew, h⟩ := Option.bind_eq_some_iff.mp h
  cases hnew
  obtain ⟨call, hcall, h⟩ := Option.bind_eq_some_iff.mp h
  obtain ⟨answer, hanswer, h⟩ := Option.bind_eq_some_iff.mp h
  cases answer with
  | error fault => cases h
  | ok css =>
    cases h
    exact ⟨call, hcall, hanswer⟩

/-- A file is written while a sheet that imports it is compiled, but before it is loaded. A call
that comes after that waits for the compilation. -/
theorem served_eq_fromScratch_waiting :
    let setup : SheetOptions := ⟨{ templateLocation := "css" }, 0, 0, 0⟩
    let lib : Library := .inMemory ⟨[], "css", 0⟩
    let d : Disk := ⟨[("css/a.sass", ⟨"@import b\n", 1⟩), ("css/b.sass", ⟨"p\n  q: r\n", 1⟩)], [],
      false⟩
    let before : List Event := .call "a" [] :: List.replicate 6 (.turn 0 []) ++
      [.write "css/b.sass" ⟨"p\n  q: s\n", 2⟩]
    let after : List Event := [.call "a" [], .turn 1 [], .turn 1 []] ++
      List.replicate 13 (.turn 0 []) ++ [.turn 1 []]
    ∃ m call, Sheets.new setup lib = .ok m ∧ d.IsClear ∧ Orderly [d] ⟨m, d, []⟩ before ∧
      (∀ event ∈ after, event.isWrite = false) ∧ (run ⟨m, d, []⟩ before).calls.length ≤ 1 ∧
      (run ⟨m, d, []⟩ (before ++ after)).calls[1]? = some call ∧
      call.answer? = some (.ok "p \x7b\n  q: s; \x7d\n") ∧
      Sheets.fromScratch m.setup.options lib (run ⟨m, d, []⟩ (before ++ after)).disk call.name
        call.style = .ok "p \x7b\n  q: s; \x7d\n" ∧
      ∃ n call', ((run ⟨m, d, []⟩ (before ++ after)).after everyTurn n).calls[1]? = some call' ∧
        call'.answer? = some (.ok "p \x7b\n  q: s; \x7d\n") := by
  intro setup lib d before after
  have hclear : d.IsClear := Disk.isClear_of_paths (by decide +kernel)
  have hafter : ∀ event ∈ after, event.isWrite = false := by decide +kernel
  have hearly : (Sheets.new setup lib).toOption.any (fun m =>
      decide (Orderly [d] ⟨m, d, []⟩ before ∧ (run ⟨m, d, []⟩ before).calls.length ≤ 1)) =
      true := by decide +kernel
  have hanswer : answerIn setup lib d (before ++ after) 1 = some "p \x7b\n  q: s; \x7d\n" := by
    decide +kernel
  rcases hm : Sheets.new setup lib with fault | m
  · rw [hm] at hearly
    cases hearly
  · rw [hm, Except.toOption, Option.any_some, decide_eq_true_eq] at hearly
    obtain ⟨hbefore, hi⟩ := hearly
    obtain ⟨call, hcall, hanswer⟩ := of_answerIn hm hanswer
    obtain ⟨hserved, hends, -⟩ :=
      served_eq_fromScratch (Library.isNew_inMemory _) hm hclear hbefore hafter hi hcall
    have hscratch := (hserved _ hanswer).symm
    obtain ⟨n, call', hcall', hanswer'⟩ := hends everyTurn isFair_everyTurn
    rw [hscratch] at hanswer'
    exact ⟨m, call, rfl, hclear, hbefore, hafter, hi, hcall, hanswer, hscratch, n, call', hcall',
      hanswer'⟩

/-- Why the conditions are there. A file is written between its loading and the end of the
compilation; a file gets a time that shows the same nanoseconds; paths have zero bytes. In each case
the last call starts after the last write and still answers something else than the files say. -/
theorem stale_answers :
    let get (i : Nat) (name : Text) : List Event :=
      .call name [] :: List.replicate 19 (.turn i [])
    let setup : SheetOptions := ⟨{ templateLocation := "css" }, 0, 0, 0⟩
    let lib : Library := .inMemory ⟨[], "css", 0⟩
    let d : Disk := ⟨[("css/a.sass", ⟨"a\n  b: c\n", 0⟩)], [], false⟩
    let soon : File := ⟨"a\n  b: d\n", 1⟩
    let late : File := ⟨"a\n  b: d\n", 36028797018963968⟩
    let below : SheetOptions := ⟨{ templateLocation := "." }, 0, 0, 0⟩
    let unclear : Disk := ⟨[("x.sass", ⟨"@import m\x00s\n", 0⟩),
      ("m\x00s.sass", ⟨"p\n  q: r\n", 0⟩), ("s\x00x.sass", ⟨"@import m\n", 0⟩),
      ("m.sass", ⟨"u\n  v: w\n", 0⟩)], [], false⟩
    (answerIn setup lib d (.call "a" [] :: List.replicate 5 (.turn 0 []) ++
        .write "css/a.sass" soon :: List.replicate 8 (.turn 0 []) ++ get 1 "a") 1 =
          some "a \x7b\n  b: c; \x7d\n" ∧
      (Sheets.fromScratch setup.options.filled lib (d.write "css/a.sass" soon) "a" []).toOption =
        some ("a \x7b\n  b: d; \x7d\n" : Text)) ∧
    (answerIn setup lib d (get 0 "a" ++ .write "css/a.sass" late :: get 1 "a") 1 =
        some "a \x7b\n  b: c; \x7d\n" ∧
      (Sheets.fromScratch setup.options.filled lib (d.write "css/a.sass" late) "a" []).toOption =
        some ("a \x7b\n  b: d; \x7d\n" : Text)) ∧
    answerIn below (.inMemory ⟨[], ".", 0⟩) unclear (get 0 "s\x00x" ++ get 1 "x") 1 =
        some "u \x7b\n  v: w; \x7d\n" ∧
      (Sheets.fromScratch below.options.filled (.inMemory ⟨[], ".", 0⟩) unclear "x" []).toOption =
        some ("p \x7b\n  q: r; \x7d\n" : Text) := by
  decide +kernel

end System

end Service

end IndentedSass
