import IndentedSass.Watch.Debounce
import Mathlib.Data.List.Nodup

/-!
# Batches are exact

A gatherer of changes is told of changed files, of trouble, of the end of news of trouble, and of
quiet, in any order whatsoever. What it has gathered is, at any time, what counts among the signals
since its last report: each name once, in the order of first changes (`Gathered`). It reports at the
first quiet after a change that counts, and at no other time (`Unfired`).

The gatherer tells repeated names by those it has seen, and reports those that are pending. That the
two never differ (`Gathering.InStep`) is kept by every signal, and so by every run.

`Debounced` says the same of a whole run, without the gatherer, and it leaves no choice: the batches
that it allows are those of `batches`. On a clock, quiet comes at times that depend on the delay;
the batches are those of one of the orders.
-/

namespace IndentedSass.Watch
variable {ext : Text} {since signals later : List Signal} {names names' : List Text} {g : Gathering}

/-- A change of a file with the right ending. -/
def Signal.counts (ext : Text) : Signal → Bool
  | .changed name => Path.ext name = ext
  | .trouble _ | .troubleEnds | .quiet => false

/-- The names that count among some signals, each once and in the order of their first changes. -/
structure Gathered (ext : Text) (since : List Signal) (names : List Text) : Prop where
  nodup : names.Nodup
  mem_iff : ∀ name, name ∈ names ↔ Signal.changed name ∈ since ∧ Path.ext name = ext
  ordered : names.Pairwise fun a b =>
    since.idxOf (Signal.changed a) < since.idxOf (Signal.changed b)

/-- No quiet comes after a change that counts. -/
def Unfired (ext : Text) (signals : List Signal) : Prop :=
  signals.Pairwise fun earlier later => earlier.counts ext = true → later ≠ .quiet

/-- The batches that a run of signals asks for. Each is made of the signals since the batch before,
and comes with the first quiet after a change that counts. -/
inductive Debounced (ext : Text) : List Signal → List (List Text) → Prop
  | silent {signals : List Signal} (unfired : Unfired ext signals) : Debounced ext signals []
  | report {since later : List Signal} {batch : List Text} {more : List (List Text)}
      (unfired : Unfired ext since) (gathered : Gathered ext since batch) (nonempty : batch ≠ [])
      (rest : Debounced ext later more) :
      Debounced ext (since ++ .quiet :: later) (batch :: more)

/-! ## Gathering -/

theorem gathered_nil (ext : Text) : Gathered ext [] [] :=
  ⟨List.nodup_nil, by simp, .nil⟩

/-- A signal that brings no new name leaves what is gathered as it is. -/
theorem Gathered.pass (h : Gathered ext since names) {s : Signal}
    (hs : ∀ name, s = .changed name → Path.ext name = ext → name ∈ names) :
    Gathered ext (since ++ [s]) names := by
  have hold {name : Text} (hname : name ∈ names) : Signal.changed name ∈ since :=
    ((h.mem_iff name).mp hname).1
  refine ⟨h.nodup, fun name => ?_, ?_⟩
  · rw [List.mem_append, List.mem_singleton]
    constructor
    · intro hname
      exact ⟨.inl (hold hname), ((h.mem_iff name).mp hname).2⟩
    · rintro ⟨hmem | heq, hext⟩
      · exact (h.mem_iff name).mpr ⟨hmem, hext⟩
      · exact hs name heq.symm hext
  · refine h.ordered.imp_of_mem fun {a b} ha hb hlt => ?_
    rwa [List.idxOf_append_of_mem (hold ha), List.idxOf_append_of_mem (hold hb)]

/-- A new name comes last. -/
theorem Gathered.take (h : Gathered ext since names) {name : Text} (hext : Path.ext name = ext)
    (hnew : name ∉ names) : Gathered ext (since ++ [.changed name]) (names ++ [name]) := by
  have hfresh : Signal.changed name ∉ since := fun hmem => hnew ((h.mem_iff name).mpr ⟨hmem, hext⟩)
  have hold {a : Text} (ha : a ∈ names) : Signal.changed a ∈ since := ((h.mem_iff a).mp ha).1
  refine ⟨?_, fun a => ?_, ?_⟩
  · rw [← List.concat_eq_append]
    exact h.nodup.concat hnew
  · simp only [List.mem_append, List.mem_singleton, Signal.changed.injEq, h.mem_iff]
    constructor
    · rintro (⟨hmem, ha⟩ | rfl)
      · exact ⟨.inl hmem, ha⟩
      · exact ⟨.inr rfl, hext⟩
    · rintro ⟨hmem | rfl, ha⟩
      · exact .inl ⟨hmem, ha⟩
      · exact .inr rfl
  · rw [List.pairwise_append]
    refine ⟨?_, List.pairwise_singleton _ _, fun a ha b hb => ?_⟩
    · refine h.ordered.imp_of_mem fun {a b} ha hb hlt => ?_
      rwa [List.idxOf_append_of_mem (hold ha), List.idxOf_append_of_mem (hold hb)]
    · rw [List.mem_singleton] at hb
      rw [hb, List.idxOf_append_of_mem (hold ha), List.idxOf_append_of_notMem hfresh]
      exact Nat.lt_of_lt_of_le (List.idxOf_lt_length_iff.mpr (hold ha)) (Nat.le_add_right _ _)

/-- What is to be gathered is determined. -/
theorem Gathered.unique (h : Gathered ext since names) (h' : Gathered ext since names') :
    names = names' := by
  have hperm : names.Perm names' := (List.perm_ext_iff_of_nodup h.nodup h'.nodup).mpr fun name => by
    rw [h.mem_iff, h'.mem_iff]
  refine hperm.eq_of_pairwise (fun a b _ _ hab hba => ?_) h.ordered h'.ordered
  omega

/-- Nothing is gathered if and only if nothing counts. -/
theorem Gathered.eq_nil_iff (h : Gathered ext since names) :
    names = [] ↔ ∀ s ∈ since, s.counts ext = false := by
  constructor
  · rintro rfl s hs
    cases s with
    | changed name =>
      by_contra hcounts
      have hext : Path.ext name = ext := by simpa [Signal.counts] using hcounts
      exact List.not_mem_nil ((h.mem_iff name).mpr ⟨hs, hext⟩)
    | trouble | troubleEnds | quiet => rfl
  · intro hnone
    refine List.eq_nil_iff_forall_not_mem.mpr fun name hname => ?_
    obtain ⟨hmem, hext⟩ := (h.mem_iff name).mp hname
    have hcounts := hnone _ hmem
    simp [Signal.counts, hext] at hcounts

/-! ## One signal -/

/-- The names that have been seen are the ones that wait for a report. -/
def Gathering.InStep (g : Gathering) : Prop := ∀ name, name ∈ g.seen ↔ name ∈ g.pending

theorem Gathering.inStep_empty : Gathering.empty.InStep := fun _ => Iff.rfl

/-- A changed file is taken in exactly if it counts and has not been seen. -/
theorem gather_changed (ext : Text) (g : Gathering) (name : Text) :
    gather ext g (.changed name) =
      (if Path.ext name = ext ∧ name ∉ g.seen then ⟨g.pending ++ [name], name :: g.seen⟩ else g,
        none) := by
  rw [gather]
  by_cases hext : Path.ext name = ext <;> by_cases hseen : name ∈ g.seen <;> simp [hext, hseen]

/-- Quiet reports what is pending and forgets it, if there is anything. -/
theorem gather_quiet (ext : Text) (g : Gathering) :
    gather ext g .quiet = if g.pending = [] then (g, none) else (.empty, some g.pending) := by
  rw [gather]
  simp only [List.isEmpty_iff]
  rfl

/-- Every signal keeps what is seen in step with what is pending. -/
theorem Gathering.InStep.gather (h : g.InStep) (ext : Text) (s : Signal) :
    (gather ext g s).1.InStep := by
  cases s with
  | changed name =>
    rw [gather_changed]
    split
    · intro a
      simp only [List.mem_cons, List.mem_append, List.not_mem_nil, or_false, h a]
      exact Or.comm
    · exact h
  | trouble | troubleEnds => exact h
  | quiet =>
    rw [gather_quiet]
    split
    · exact h
    · exact inStep_empty

/-- Only quiet makes a report. -/
theorem gather_silent (ext : Text) (g : Gathering) {s : Signal} (hs : s ≠ .quiet) :
    (gather ext g s).2 = none := by
  cases s with
  | changed name => rw [gather_changed]
  | trouble | troubleEnds => rfl
  | quiet => exact absurd rfl hs

/-- Every other signal is taken into what is gathered. A name that has been seen is pending, so that
nothing is lost by passing over it. -/
theorem Gathered.gather (h : Gathered ext since g.pending) (hg : g.InStep) {s : Signal}
    (hs : s ≠ .quiet) : Gathered ext (since ++ [s]) (gather ext g s).1.pending := by
  cases s with
  | changed name =>
    rw [gather_changed]
    split
    next hnew => exact h.take hnew.1 fun hmem => hnew.2 ((hg name).mpr hmem)
    next hold =>
      refine h.pass fun a heq hext => ?_
      obtain rfl := Signal.changed.inj heq
      exact (hg name).mp (by_contra fun hmem => hold ⟨hext, hmem⟩)
  | trouble | troubleEnds => exact h.pass fun _ heq => by cases heq
  | quiet => exact absurd rfl hs

theorem batches_cons (ext : Text) (g : Gathering) (s : Signal) (signals : List Signal) :
    batches ext g (s :: signals) =
      (gather ext g s).2.toList ++ batches ext (gather ext g s).1 signals := by
  rw [batches]
  split <;> simp_all

/-! ## Runs -/

theorem Unfired.prefix (h : Unfired ext (since ++ signals)) : Unfired ext since :=
  (List.pairwise_append.mp h).1

/-- As long as nothing fires, all is gathered and nothing reported. The induction is on the signals
still to come. -/
theorem batches_unfired (h : Gathered ext since g.pending) (hg : g.InStep)
    (hunfired : Unfired ext (since ++ signals)) :
    ∃ g', Gathered ext (since ++ signals) g'.pending ∧
      ∀ later, batches ext g (signals ++ later) = batches ext g' later := by
  induction signals generalizing since g with
  | nil => exact ⟨g, by rwa [List.append_nil], fun later => rfl⟩
  | cons s signals ih =>
    rw [List.append_cons] at hunfired ⊢
    have hstep : (gather ext g s).2 = none ∧
        Gathered ext (since ++ [s]) (gather ext g s).1.pending := by
      by_cases hs : s = .quiet
      · -- nothing has counted so far, so that quiet finds nothing to report
        have hnone : ∀ t ∈ since, t.counts ext = false := by
          intro t ht
          have hpair := (List.pairwise_append.mp hunfired.prefix).2.2 t ht s List.mem_cons_self
          exact eq_false_of_ne_true fun hcounts => hpair hcounts hs
        have hnil : g.pending = [] := h.eq_nil_iff.mpr hnone
        rw [hs, gather_quiet, if_pos hnil]
        exact ⟨rfl, h.pass fun _ heq => by cases heq⟩
      · exact ⟨gather_silent ext g hs, h.gather hg hs⟩
    obtain ⟨g', hgathered, hrun⟩ := ih hstep.2 (hg.gather ext s) hunfired
    refine ⟨g', hgathered, fun later => ?_⟩
    rw [List.cons_append, batches_cons, hstep.1, hrun later]
    rfl

/-- `batches_unfired` from the start. -/
theorem batches_empty_unfired (h : Unfired ext signals) :
    ∃ g, Gathered ext signals g.pending ∧
      ∀ later, batches ext .empty (signals ++ later) = batches ext g later :=
  batches_unfired (g := .empty) (gathered_nil ext) Gathering.inStep_empty
    (show Unfired ext ([] ++ signals) from h)

/-- A run either never fires after a change that counts, or does so for a first time. -/
theorem unfired_or_split (h : Unfired ext since) (signals : List Signal) :
    Unfired ext (since ++ signals) ∨ ∃ first later, since ++ signals = first ++ .quiet :: later ∧
      Unfired ext first ∧ ∃ s ∈ first, s.counts ext = true := by
  induction signals generalizing since with
  | nil => exact .inl (by rwa [List.append_nil])
  | cons s signals ih =>
    by_cases hnext : Unfired ext (since ++ [s])
    · rw [List.append_cons]
      exact ih hnext
    · have hfires : ∃ t ∈ since, t.counts ext = true ∧ s = .quiet := by
        by_contra hnone
        refine hnext (List.pairwise_append.mpr ⟨h, List.pairwise_singleton _ _, ?_⟩)
        intro t ht t' ht' hcounts hquiet
        rw [List.mem_singleton] at ht'
        exact hnone ⟨t, ht, hcounts, ht' ▸ hquiet⟩
      obtain ⟨t, ht, hcounts, rfl⟩ := hfires
      exact .inr ⟨since, signals, rfl, h, t, ht, hcounts⟩

/-- The batches of a run are asked for. -/
theorem debounced_batches (ext : Text) (signals : List Signal) :
    Debounced ext signals (batches ext .empty signals) := by
  induction hlen : signals.length using Nat.strongRecOn generalizing signals with
  | ind n ih =>
    have hstart : Unfired ext [] := .nil
    rcases unfired_or_split hstart signals with
      hunfired | ⟨first, later, hsplit, hfirst, hcounts⟩
    · obtain ⟨g, -, hrun⟩ := batches_empty_unfired (show Unfired ext signals from hunfired)
      have hnone := hrun []
      rw [List.append_nil] at hnone
      rw [hnone]
      exact .silent hunfired
    · rw [List.nil_append] at hsplit
      subst hsplit
      obtain ⟨g, hgathered, hrun⟩ := batches_empty_unfired hfirst
      have hsome : g.pending ≠ [] := by
        intro hnil
        obtain ⟨s, hs, hs'⟩ := hcounts
        rw [hgathered.eq_nil_iff.mp hnil s hs] at hs'
        cases hs'
      rw [hrun, batches_cons, gather_quiet, if_neg hsome]
      refine .report hfirst hgathered hsome (ih later.length ?_ later rfl)
      rw [← hlen, List.length_append, List.length_cons]
      omega

/-- No other batches are asked for. -/
theorem Debounced.eq_batches {out : List (List Text)} (h : Debounced ext signals out) :
    out = batches ext .empty signals := by
  induction h with
  | silent hunfired =>
    obtain ⟨g, -, hrun⟩ := batches_empty_unfired hunfired
    have hnone := hrun []
    rw [List.append_nil] at hnone
    exact hnone.symm
  | @report since later batch more hunfired hgathered hsome _ ih =>
    obtain ⟨g, hg, hrun⟩ := batches_empty_unfired hunfired
    have hbatch : g.pending = batch := hg.unique hgathered
    rw [hrun, batches_cons, gather_quiet, hbatch, if_neg hsome, ih]
    rfl

/-! ## The report of a single change -/

/-- What is gathered after some signals. -/
def held (ext : Text) (g : Gathering) (signals : List Signal) : Gathering :=
  signals.foldl (fun g s => (gather ext g s).1) g

/-- Every run keeps what is seen in step with what is pending. -/
theorem Gathering.InStep.held (h : g.InStep) (ext : Text) (signals : List Signal) :
    (held ext g signals).InStep := by
  induction signals generalizing g with
  | nil => exact h
  | cons s signals ih => exact ih (h.gather ext s)

theorem batches_append (ext : Text) (g : Gathering) (signals later : List Signal) :
    batches ext g (signals ++ later) =
      batches ext g signals ++ batches ext (held ext g signals) later := by
  induction signals generalizing g with
  | nil => rfl
  | cons s signals ih =>
    rw [List.cons_append, batches_cons, batches_cons, ih, List.append_assoc]
    rfl

theorem mem_gather_of_mem {name : Text} (h : name ∈ g.pending) {s : Signal} (hs : s ≠ .quiet) :
    name ∈ (gather ext g s).1.pending := by
  cases s with
  | changed other =>
    rw [gather_changed]
    split
    · exact List.mem_append_left _ h
    · exact h
  | trouble | troubleEnds => exact h
  | quiet => exact absurd rfl hs

theorem mem_gather_changed {name : Text} (h : Path.ext name = ext) (hg : g.InStep) :
    name ∈ (gather ext g (.changed name)).1.pending := by
  rw [gather_changed]
  split
  · exact List.mem_append_right _ List.mem_cons_self
  next hold => exact (hg name).mp (by_contra fun hmem => hold ⟨h, hmem⟩)

/-- What is gathered stays until it is quiet. -/
theorem mem_held {name : Text} (h : name ∈ g.pending) (hsignals : Signal.quiet ∉ signals) :
    name ∈ (held ext g signals).pending := by
  induction signals generalizing g with
  | nil => exact h
  | cons s signals ih =>
    rw [List.mem_cons, not_or] at hsignals
    exact ih (mem_gather_of_mem h (Ne.symm hsignals.1)) hsignals.2

/-- A change that counts is reported at the first quiet after it. -/
theorem reported_at_quiet {name : Text} (hext : Path.ext name = ext) (before : List Signal)
    {mid : List Signal} (hmid : Signal.quiet ∉ mid) :
    ∃ batch, name ∈ batch ∧ batches ext .empty (before ++ .changed name :: mid ++ [.quiet]) =
      batches ext .empty (before ++ .changed name :: mid) ++ [batch] := by
  have hheld : name ∈ (held ext .empty (before ++ .changed name :: mid)).pending := by
    rw [held, List.foldl_append, List.foldl_cons]
    exact mem_held (mem_gather_changed hext (Gathering.inStep_empty.held ext before)) hmid
  refine ⟨_, hheld, ?_⟩
  rw [batches_append, batches_cons, gather_quiet, if_neg (List.ne_nil_of_mem hheld)]
  rfl

/-! ## On a clock -/

namespace Timer

/-- Time that passes is nothing, or quiet. -/
theorem advance_cases (ext : Text) (now : Int) (t : Timer) : t.advance ext now = (none, t) ∨
    ∃ due, t.advance ext now = ((gather ext t.gathering .quiet).2.map fun names => (due, names),
      ⟨(gather ext t.gathering .quiet).1, none⟩) := by
  rw [advance]
  cases t.due with
  | none => exact .inl rfl
  | some due =>
    dsimp only
    split
    · exact .inr ⟨due, rfl⟩
    · exact .inl rfl

theorem gathering_take (ext : Text) (delay now : Int) (s : Signal) (t : Timer) :
    (t.take ext delay now s).gathering = (gather ext t.gathering s).1 := by
  cases s with
  | changed name =>
    rw [take]
    split <;> rfl
  | trouble | troubleEnds | quiet => rfl

end Timer

theorem map_toList_gather_quiet (ext : Text) (g : Gathering) (due : Int) :
    (((gather ext g .quiet).2.map fun names => (due, names)).toList.map Prod.snd) =
      (gather ext g .quiet).2.toList := by
  cases (gather ext g .quiet).2 <;> rfl

/-- On a clock, quiet comes somewhere in between. -/
theorem exists_batches_of_timed (delay stop : Int) (t : Timer) {timeline : List (Int × Signal)}
    (h : ∀ entry ∈ timeline, entry.2 ≠ .quiet) :
    ∃ signals, signals.filter (· != .quiet) = timeline.map Prod.snd ∧
      (timedBatches ext delay stop t timeline).map Prod.snd = batches ext t.gathering signals := by
  induction timeline generalizing t with
  | nil =>
    rw [timedBatches]
    rcases t.advance_cases ext stop with hadvance | ⟨due, hadvance⟩
    · exact ⟨[], rfl, by rw [hadvance]; rfl⟩
    · refine ⟨[.quiet], rfl, ?_⟩
      rw [hadvance, map_toList_gather_quiet, batches_cons, batches, List.append_nil]
  | cons entry timeline ih =>
    obtain ⟨now, s⟩ := entry
    obtain ⟨hs, htimeline⟩ := List.forall_mem_cons.mp h
    rw [timedBatches]
    dsimp only at hs ⊢
    obtain ⟨signals, hsignals, hrun⟩ := ih ((t.advance ext now).2.take ext delay now s) htimeline
    have hstep (g : Gathering) : batches ext g (s :: signals) =
        batches ext (gather ext g s).1 signals := by
      rw [batches_cons, gather_silent ext g hs]
      rfl
    rw [List.map_append, hrun, Timer.gathering_take, ← hstep]
    rcases t.advance_cases ext now with hadvance | ⟨due, hadvance⟩
    · refine ⟨s :: signals, ?_, by rw [hadvance]; rfl⟩
      simp [hs, hsignals]
    · refine ⟨.quiet :: s :: signals, ?_, ?_⟩
      · simp [hs, hsignals]
      · rw [hadvance, map_toList_gather_quiet, batches_cons ext t.gathering]

/-! ## Exactness -/

/-- **Batches are exact, whatever the order of the signals.** The batches of a run are the ones that
`Debounced` asks for and no others. What has been seen is in step with what is pending after every
run. A change that counts is in the batch that the first quiet after it adds. On a clock, the
batches are those of the same signals with quiet somewhere in between. -/
theorem batches_exact (ext : Text) :
    (∀ signals out, Debounced ext signals out ↔ out = batches ext .empty signals) ∧
    (∀ signals, (held ext .empty signals).InStep) ∧
    (∀ before mid name, Path.ext name = ext → Signal.quiet ∉ mid →
      ∃ batch, name ∈ batch ∧ batches ext .empty (before ++ .changed name :: mid ++ [.quiet]) =
        batches ext .empty (before ++ .changed name :: mid) ++ [batch]) ∧
    ∀ delay stop timeline, (∀ entry ∈ timeline, entry.2 ≠ Signal.quiet) →
      ∃ signals, signals.filter (· != .quiet) = timeline.map Prod.snd ∧
        Debounced ext signals ((timedBatches ext delay stop .idle timeline).map Prod.snd) := by
  refine ⟨fun signals out => ⟨Debounced.eq_batches, ?_⟩, fun signals => ?_,
    fun before mid name hext hmid => ?_, fun delay stop timeline htimeline => ?_⟩
  · rintro rfl
    exact debounced_batches ext signals
  · exact Gathering.inStep_empty.held ext signals
  · exact reported_at_quiet hext before hmid
  · obtain ⟨signals, hsignals, hrun⟩ := exists_batches_of_timed delay stop .idle htimeline
    refine ⟨signals, hsignals, ?_⟩
    rw [hrun]
    exact debounced_batches ext signals

/-- Repeated names, another ending, trouble and idle quiet in between; what comes last is never
reported. -/
theorem batches_exact_mixed :
    let signals : List Signal := [.quiet, .changed "a.sass", .trouble "full", .changed "b.css",
      .changed "c/d.sass", .changed "a.sass", .troubleEnds, .quiet, .quiet, .changed "a.sass",
      .quiet, .changed "e.sass"]
    let timeline : List (Int × Signal) :=
      [(0, .changed "b.sass"), (9, .changed "a.sass"), (30, .troubleEnds), (31, .changed "a.sass")]
    Debounced ".sass" signals [["a.sass", "c/d.sass"], ["a.sass"]] ∧
      (∃ batch, ("a.sass" : Text) ∈ batch ∧
        batches ".sass" .empty ([] ++ .changed "a.sass" :: [.troubleEnds] ++ [.quiet]) =
          batches ".sass" .empty ([] ++ .changed "a.sass" :: [.troubleEnds]) ++ [batch]) ∧
      ∃ signals, signals.filter (· != .quiet) = timeline.map Prod.snd ∧
        Debounced ".sass" signals ((timedBatches ".sass" 10 40 .idle timeline).map Prod.snd) := by
  obtain ⟨hexact, -, hreported, hclock⟩ := batches_exact ".sass"
  refine ⟨(hexact _ _).mpr (by decide +kernel), hreported [] [.troubleEnds] "a.sass" ?_ ?_,
    hclock 10 40 _ ?_⟩
  · decide +kernel
  · decide +kernel
  · simp

end IndentedSass.Watch
