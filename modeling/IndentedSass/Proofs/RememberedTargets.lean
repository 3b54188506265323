import IndentedSass.Proofs.Anew

/-!
# Remembered targets

A library remembers which file it found for a target and does not look again, whatever becomes of
the files. This module follows a library while files are written and removed and targets resolved
(`Library.Use`), and says which moment an answer is about.

Every answer was right at some moment (`answer_run`): at the present one, or when the same target
was found before. It is right at present if the disk has the same paths as it had then. As long as
no entry has to make room for another, the moment is the first at which the target was found, and
stays so for ever (`get?_run`). That is why an answer can be out of date (`stale_targets`), be it
that its file is gone or that there is now a file that comes first. A fault is never remembered.
-/

namespace IndentedSass

namespace Bounded
variable {κ υ : Type} {c : Bounded κ υ}

theorem isFull_eq_false (c : Bounded κ υ) : c.isFull = false ↔ (c.items.length : Int) < c.size := by
  simp [isFull]

variable [BEq κ] {k : κ} {v : υ}

/-- Nothing has to go for a new key as long as there is room. -/
theorem get?_add_new (hroom : c.isFull = false) (hnew : c.get? k = none) (victim : Nat) (key : κ) :
    (c.add victim k v).2.get? key = (c.get? key).or (if key == k then some v else none) := by
  have hitems : (c.add victim k v).2.items = c.items ++ [(k, v)] := by
    simp [add, hnew, hroom]
  rw [get?, hitems, List.lookup_append, get?]
  congr 1
  by_cases h : key == k <;> simp [List.lookup_cons, h]

theorem length_add_new (hroom : c.isFull = false) (hnew : c.get? k = none) (victim : Nat) :
    (c.add victim k v).2.items.length = c.items.length + 1 := by
  simp [add, hnew, hroom]

theorem size_add (c : Bounded κ υ) (victim : Nat) (k : κ) (v : υ) :
    (c.add victim k v).2.size = c.size := by
  rw [add]
  split
  · rfl
  · split <;> rfl

end Bounded

namespace Library

/-! ## A library in use -/

/-- What happens around a library: files and directories come and go, and targets are resolved.
When the memory is full, entry number `victim` makes room for a new one. -/
inductive Use where
  | write (path : Text) (file : File)
  | remove (path : Text)
  | makeDir (path : Text)
  | resolve (victim : Nat) (uri file : Text)

/-- Whether a use resolves a target. -/
def Use.isResolve : Use → Bool
  | .resolve .. => true
  | _ => false

/-- The library, if a given entry makes room. -/
def displacing (lib : Library) (victim : Nat) : Library :=
  lib.withResolved ⟨lib.resolved.toBounded, fun _ => victim⟩

/-- A library and the disk that it looks at. -/
structure Moment where
  library : Library
  disk : Disk

namespace Moment

/-- Resolves a target. Which entry makes room is left open. -/
def resolve (victim : Nat) (uri file : Text) (m : Moment) : Except Fault Text × Moment :=
  let (result, library) := (m.library.displacing victim).resolveCached m.disk uri file
  (result, { m with library })

/-- The next moment. -/
def after (m : Moment) : Use → Moment
  | .write path file => { m with disk := m.disk.write path file }
  | .remove path => { m with disk := m.disk.remove path }
  | .makeDir path => { m with disk := m.disk.makeDir path }
  | .resolve victim uri file => (m.resolve victim uri file).2

/-- The moment after some uses. -/
def run (m : Moment) (uses : List Use) : Moment := uses.foldl after m

/-- The answer for a target after some uses. -/
def answer (m : Moment) (uses : List Use) (victim : Nat) (uri file : Text) : Except Fault Text :=
  ((m.run uses).resolve victim uri file).1

/-- The file that a target names at a moment, whatever is remembered. -/
def current (m : Moment) (uri file : Text) : Except Fault Text := m.library.resolve m.disk uri file

/-- The file that a use finds for a target. -/
def found? (m : Moment) (uri file : Text) : Use → Option Text
  | .resolve _ uri' file' =>
    if uri = uri' ∧ file = file' then (m.current uri file).toOption else none
  | _ => none

/-- The file that is found for a target the first time that one is. -/
def firstFound? (m : Moment) (uri file : Text) : List Use → Option Text
  | [] => none
  | use :: uses => (m.found? uri file use).or ((m.after use).firstFound? uri file uses)

/-! ## One use -/

section Step
variable {m : Moment} {victim : Nat} {uri file p : Text}

theorem resolve_of_some (h : m.library.resolved.get? (resolveKey uri file) = some p) :
    m.resolve victim uri file = (.ok p, ⟨m.library.displacing victim, m.disk⟩) := by
  have hget : (m.library.displacing victim).resolved.get? (resolveKey uri file) = some p := h
  simp only [resolve, resolveCached, Memo.getOrCompute, Bounded.getOrCompute, hget]
  rfl

theorem resolve_of_error {fault : Fault}
    (h : m.library.resolved.get? (resolveKey uri file) = none)
    (hcurrent : m.current uri file = .error fault) :
    m.resolve victim uri file = (.error fault, ⟨m.library.displacing victim, m.disk⟩) := by
  have hget : (m.library.displacing victim).resolved.get? (resolveKey uri file) = none := h
  have hresolve : (m.library.displacing victim).resolve m.disk uri file = .error fault := hcurrent
  simp only [resolve, resolveCached, Memo.getOrCompute, Bounded.getOrCompute, hget, hresolve]
  rfl

theorem resolve_of_ok (h : m.library.resolved.get? (resolveKey uri file) = none)
    (hcurrent : m.current uri file = .ok p) :
    m.resolve victim uri file = (.ok p, ⟨m.library.withResolved
      ⟨(m.library.resolved.add victim (resolveKey uri file) p).2, fun _ => victim⟩, m.disk⟩) := by
  have hget : (m.library.displacing victim).resolved.get? (resolveKey uri file) = none := h
  have hresolve : (m.library.displacing victim).resolve m.disk uri file = .ok p := hcurrent
  simp only [resolve, resolveCached, Memo.getOrCompute, Bounded.getOrCompute, hget, hresolve]
  rfl

/-- A target that is not remembered is looked for. -/
theorem resolve_of_none (h : m.library.resolved.get? (resolveKey uri file) = none) :
    (m.resolve victim uri file).1 = m.current uri file := by
  cases hcurrent : m.current uri file with
  | error fault => rw [resolve_of_error h hcurrent]
  | ok q => rw [resolve_of_ok h hcurrent]

/-- Only the remembered targets of a library change. -/
theorem library_after (m : Moment) (use : Use) :
    ∃ resolved, (m.after use).library = m.library.withResolved resolved := by
  cases use with
  | write path f => exact ⟨m.library.resolved, rfl⟩
  | remove path => exact ⟨m.library.resolved, rfl⟩
  | makeDir path => exact ⟨m.library.resolved, rfl⟩
  | resolve victim uri file => exact ⟨_, rfl⟩

/-- What a use leaves in the memory was there before or has just been found. -/
theorem mem_after {use : Use} {entry : Text × Text}
    (h : entry ∈ (m.after use).library.resolved.items) :
    entry ∈ m.library.resolved.items ∨ ∃ victim uri file, use = .resolve victim uri file ∧
      entry.1 = resolveKey uri file ∧ m.current uri file = .ok entry.2 := by
  cases use with
  | write path f => exact .inl h
  | remove path => exact .inl h
  | makeDir path => exact .inl h
  | resolve victim uri file =>
    rw [after] at h
    cases hget : m.library.resolved.get? (resolveKey uri file) with
    | some q =>
      rw [resolve_of_some hget] at h
      exact .inl h
    | none =>
      cases hcurrent : m.current uri file with
      | error fault =>
        rw [resolve_of_error hget hcurrent] at h
        exact .inl h
      | ok q =>
        rw [resolve_of_ok hget hcurrent] at h
        rcases Bounded.mem_add h with rfl | hold
        · exact .inr ⟨victim, uri, file, rfl, rfl, hcurrent⟩
        · exact .inl hold

/-- With room left, a use adds what it finds for a target that is not remembered yet. -/
theorem get?_after {use : Use}
    (hroom : use.isResolve = true → m.library.resolved.isFull = false)
    (hclear : ∀ victim uri file, use = .resolve victim uri file → 0 ∉ file) (uri : Text)
    (hfile : 0 ∉ file) :
    (m.after use).library.resolved.get? (resolveKey uri file) =
      (m.library.resolved.get? (resolveKey uri file)).or (m.found? uri file use) := by
  cases use with
  | write path f => exact (Option.or_none).symm
  | remove path => exact (Option.or_none).symm
  | makeDir path => exact (Option.or_none).symm
  | resolve victim uri' file' =>
    have hfile' : 0 ∉ file' := hclear victim uri' file' rfl
    rw [after, found?]
    cases hget : m.library.resolved.get? (resolveKey uri' file') with
    | some q =>
      rw [resolve_of_some hget]
      split
      · rename_i hsame
        obtain ⟨rfl, rfl⟩ := hsame
        rw [hget]
        exact hget
      · exact (Option.or_none).symm
    | none =>
      cases hcurrent : m.current uri' file' with
      | error fault =>
        rw [resolve_of_error hget hcurrent]
        split
        · rename_i hsame
          obtain ⟨rfl, rfl⟩ := hsame
          rw [hcurrent]
          exact (Option.or_none).symm
        · exact (Option.or_none).symm
      | ok q =>
        rw [resolve_of_ok hget hcurrent]
        refine (Bounded.get?_add_new (hroom rfl) hget victim _).trans ?_
        congr 1
        by_cases hsame : uri = uri' ∧ file = file'
        · obtain ⟨rfl, rfl⟩ := hsame
          simp [hcurrent, Except.toOption]
        · -- two targets share a key only if they are the same
          have hne : resolveKey uri file ≠ resolveKey uri' file' :=
            fun hkey => hsame (resolveKey_inj hfile hfile' hkey)
          simp [hne, hsame]

/-- A use takes up at most one entry, and only if it resolves a target. -/
theorem length_after {use : Use}
    (hroom : use.isResolve = true → m.library.resolved.isFull = false) :
    (m.after use).library.resolved.items.length ≤
      m.library.resolved.items.length + [use].countP Use.isResolve ∧
    (m.after use).library.resolved.size = m.library.resolved.size := by
  cases use with
  | write path f => exact ⟨Nat.le_refl _, rfl⟩
  | remove path => exact ⟨Nat.le_refl _, rfl⟩
  | makeDir path => exact ⟨Nat.le_refl _, rfl⟩
  | resolve victim uri file =>
    rw [after]
    cases hget : m.library.resolved.get? (resolveKey uri file) with
    | some q =>
      rw [resolve_of_some hget]
      exact ⟨Nat.le_add_right _ _, rfl⟩
    | none =>
      cases hcurrent : m.current uri file with
      | error fault =>
        rw [resolve_of_error hget hcurrent]
        exact ⟨Nat.le_add_right _ _, rfl⟩
      | ok q =>
        rw [resolve_of_ok hget hcurrent]
        exact ⟨Nat.le_of_eq (Bounded.length_add_new (hroom rfl) hget victim),
          Bounded.size_add _ _ _ _⟩

end Step

/-! ## Many uses -/

section Run
variable {m : Moment} {uses : List Use} {uri file : Text}

/-- Only the remembered targets change, so there are the same files to be found. -/
theorem current_run (m : Moment) (uses : List Use) (uri file : Text) :
    (m.run uses).current uri file = m.library.resolve (m.run uses).disk uri file := by
  have hlibrary : ∃ resolved, (m.run uses).library = m.library.withResolved resolved := by
    induction uses generalizing m with
    | nil => exact ⟨m.library.resolved, rfl⟩
    | cons use uses ih =>
      obtain ⟨resolved, hrun⟩ := ih (m.after use)
      obtain ⟨resolved', hafter⟩ := m.library_after use
      rw [hafter] at hrun
      exact ⟨resolved, hrun⟩
  obtain ⟨resolved, hlibrary⟩ := hlibrary
  rw [current, hlibrary]
  rfl

/-- **What is remembered was found once**, whichever entries have made room since. -/
theorem mem_run {entry : Text × Text} (h : entry ∈ (m.run uses).library.resolved.items) :
    entry ∈ m.library.resolved.items ∨ ∃ earlier victim uri file,
      earlier ++ [.resolve victim uri file] <+: uses ∧ entry.1 = resolveKey uri file ∧
        (m.run earlier).current uri file = .ok entry.2 := by
  induction uses generalizing m with
  | nil => exact .inl h
  | cons use uses ih =>
    rcases ih (m := m.after use) h with hold | ⟨earlier, victim, uri, file, hbefore, hkey, hfound⟩
    · rcases mem_after hold with hold | ⟨victim, uri, file, rfl, hkey, hfound⟩
      · exact .inl hold
      · exact .inr ⟨[], victim, uri, file, List.prefix_append _ _, hkey, hfound⟩
    · exact .inr ⟨use :: earlier, victim, uri, file, List.cons_prefix_cons.mpr ⟨rfl, hbefore⟩,
        hkey, hfound⟩

/-- **The first file that is found stays**, as long as nothing has to make room. -/
theorem get?_run (hclear : ∀ victim uri file, .resolve victim uri file ∈ uses → 0 ∉ file)
    (hroom : m.library.resolved.items.length + uses.countP Use.isResolve ≤
      m.library.resolved.size) (uri : Text) (hfile : 0 ∉ file) :
    (m.run uses).library.resolved.get? (resolveKey uri file) =
      (m.library.resolved.get? (resolveKey uri file)).or (m.firstFound? uri file uses) := by
  induction uses generalizing m with
  | nil => exact (Option.or_none).symm
  | cons use uses ih =>
    have hcount : (use :: uses).countP Use.isResolve =
        [use].countP Use.isResolve + uses.countP Use.isResolve := by
      rw [← List.countP_append]
      rfl
    have hspace : use.isResolve = true → m.library.resolved.isFull = false := by
      intro hresolve
      have hone : [use].countP Use.isResolve = 1 := by simp [hresolve]
      rw [Bounded.isFull_eq_false]
      omega
    obtain ⟨hlength, hsize⟩ := length_after hspace
    have hfirst := get?_after hspace
      (fun victim uri file h => hclear victim uri file (h ▸ List.mem_cons_self)) uri hfile
    have hrest := ih (m := m.after use)
      (fun victim uri file h => hclear victim uri file (List.mem_cons_of_mem _ h)) (by omega)
    rw [hfirst, Option.or_assoc] at hrest
    exact hrest

/-- What is remembered for a target is the file that it named at an earlier call. -/
theorem exists_call (hnew : m.library.resolved.items = [])
    (hclear : ∀ victim uri file, .resolve victim uri file ∈ uses → 0 ∉ file) (hfile : 0 ∉ file)
    {p : Text} (h : (m.run uses).library.resolved.get? (resolveKey uri file) = some p) :
    ∃ earlier victim, earlier ++ [.resolve victim uri file] <+: uses ∧
      m.library.resolve (m.run earlier).disk uri file = .ok p := by
  rcases mem_run (Recent.mem_of_lookup h) with
    hold | ⟨earlier, victim, uri', file', hcall, hkey, hp⟩
  · rw [hnew] at hold
    cases hold
  · have hmem : .resolve victim uri' file' ∈ uses :=
      hcall.subset (List.mem_append_right _ List.mem_cons_self)
    obtain ⟨rfl, rfl⟩ := resolveKey_inj hfile (hclear victim uri' file' hmem) hkey
    rw [current_run] at hp
    exact ⟨earlier, victim, hcall, hp⟩

/-- **Which moment an answer is about.** A library that starts without memories resolves targets
while files come and go. Its answer is the file that the target names at present, or else the one
that it named when it was found at an earlier call. It is the present one if the disk has the same
paths as at every earlier call for the target. And while there is room for all targets, it is the
file that was found first. -/
theorem answer_run (hnew : m.library.resolved.items = [])
    (hclear : ∀ victim uri file, .resolve victim uri file ∈ uses → 0 ∉ file) (victim : Nat)
    (uri : Text) (hfile : 0 ∉ file) :
    (m.answer uses victim uri file = m.library.resolve (m.run uses).disk uri file ∨
      ∃ earlier before p, earlier ++ [.resolve before uri file] <+: uses ∧
        m.library.resolve (m.run earlier).disk uri file = .ok p ∧
        m.answer uses victim uri file = .ok p) ∧
    ((∀ earlier before, earlier ++ [.resolve before uri file] <+: uses →
        (m.run earlier).disk.SamePaths (m.run uses).disk) →
      m.answer uses victim uri file = m.library.resolve (m.run uses).disk uri file) ∧
    (uses.countP Use.isResolve ≤ m.library.resolved.size →
      m.answer uses victim uri file = (m.firstFound? uri file uses).elim
        (m.library.resolve (m.run uses).disk uri file) .ok) := by
  have hfirst (hroom : uses.countP Use.isResolve ≤ m.library.resolved.size) :
      (m.run uses).library.resolved.get? (resolveKey uri file) = m.firstFound? uri file uses := by
    have hrun := get?_run (m := m) hclear (by rw [hnew]; simpa using hroom) uri hfile
    have hnone : m.library.resolved.get? (resolveKey uri file) = none := by
      rw [Bounded.get?, hnew]
      rfl
    rwa [hnone, Option.none_or] at hrun
  -- without a memory of the target the disk is searched, otherwise it is not looked at
  cases hget : (m.run uses).library.resolved.get? (resolveKey uri file) with
  | none =>
    have hpresent : m.answer uses victim uri file =
        m.library.resolve (m.run uses).disk uri file := by
      rw [answer, resolve_of_none hget, current_run]
    refine ⟨.inl hpresent, fun _ => hpresent, fun hroom => ?_⟩
    rw [← hfirst hroom, hget]
    exact hpresent
  | some p =>
    have hanswer : m.answer uses victim uri file = .ok p := by
      rw [answer, resolve_of_some hget]
    obtain ⟨earlier, before, hcall, hp⟩ := exists_call hnew hclear hfile hget
    refine ⟨.inr ⟨earlier, before, p, hcall, hp, hanswer⟩, fun hpaths => ?_, fun hroom => ?_⟩
    · rw [hanswer, ← hp]
      exact resolve_eq (hpaths earlier before hcall) m.library uri file
    · rw [← hfirst hroom, hget]
      exact hanswer

end Run

/-- A library that looks below one directory, with room for ten targets. -/
def shelved : Library := .inMemory ⟨["lib"], [], 1⟩

/-- One file below that directory, and one besides. -/
def shelvedDisk : Disk := ⟨[("lib/x.sass", ⟨"a\n  b: c\n", 0⟩), ("y.sass", ⟨[], 0⟩)], [], false⟩

/-- A target is resolved. Then a file is written that comes first, and both are removed: the answer
stays. -/
theorem answer_run_changes :
    let m : Moment := ⟨shelved, shelvedDisk⟩
    let uses : List Use := [.resolve 0 "x" "y.sass", .write "x.sass" ⟨[], 1⟩, .resolve 0 "y" [],
      .remove "lib/x.sass", .remove "x.sass"]
    m.library.resolved.items = [] ∧
      (∀ victim uri file, .resolve victim uri file ∈ uses → 0 ∉ file) ∧
      uses.countP Use.isResolve ≤ m.library.resolved.size ∧
      m.firstFound? "x" "y.sass" uses = some "lib/x.sass" ∧
      m.answer uses 0 "x" "y.sass" = .ok "lib/x.sass" := by
  intro m uses
  have hclear : ∀ victim uri file, .resolve victim uri file ∈ uses → 0 ∉ file := by
    intro victim uri file h
    simp only [uses, List.mem_cons, Use.resolve.injEq, reduceCtorEq, List.not_mem_nil, or_false,
      false_or] at h
    rcases h with ⟨-, -, rfl⟩ | ⟨-, -, rfl⟩ <;> decide
  have hroom : uses.countP Use.isResolve ≤ m.library.resolved.size := by decide
  have hfound : m.firstFound? "x" "y.sass" uses = some "lib/x.sass" := by decide +kernel
  have hfile : 0 ∉ ("y.sass" : Text) := by decide
  have hanswer := (answer_run (m := m) rfl hclear 0 "x" hfile).2.2 hroom
  rw [hfound] at hanswer
  exact ⟨rfl, hclear, hroom, hfound, hanswer⟩

/-- An answer can be out of date: a file has been written that comes first, or the file that is
given out is gone. And two targets can share a key, so that one is answered for the other. -/
theorem stale_targets :
    let m : Moment := ⟨shelved, shelvedDisk⟩
    let written : List Use := [.resolve 0 "x" [], .write "x.sass" ⟨[], 1⟩]
    let removed : List Use := [.resolve 0 "x" [], .remove "lib/x.sass"]
    let shared : List Use := [.write "x\x00z.sass" ⟨[], 1⟩, .resolve 0 "x" "z\x00y.sass"]
    m.answer written 0 "x" [] ≠ (m.run written).current "x" [] ∧
      m.answer removed 0 "x" [] ≠ (m.run removed).current "x" [] ∧
      m.answer shared 0 "x\x00z" "y.sass" ≠ (m.run shared).current "x\x00z" "y.sass" := by
  intro m written removed shared
  refine ⟨fun h => ?_, fun h => ?_, fun h => ?_⟩ <;>
    exact absurd (congrArg Except.toOption h) (by decide +kernel)

end Moment

end Library

end IndentedSass
