import IndentedSass.Proofs.PathSteps
import IndentedSass.Proofs.TreeCache
import IndentedSass.Proofs.WhiteSpace

/-!
# The order of a search

A walk lists the directories in a directory in order and enters each of them before it comes to the
next (`Disk.Walk`). On a disk in memory the directories below a directory are given in the order of
that walk (`Disk.InMemory.walk_iff`), so a search that stops at the first file finds the first one
of the walk (`Library.find?_eq`). An import target is therefore resolved to the first file among its
candidates (`Library.candidates`), wherever in the searched directories they lie.
-/

namespace IndentedSass

theorem Text.order_self (e : Text) : order e e = .eq := by
  rw [order_eq_compareLex]
  exact Std.ReflCmp.compare_self

namespace Disk
variable {d : Disk} {dir inner p up e : Text} {names pending order : List Text}

/-! ## Comparing steps -/

theorem walkOrder_append (as bs cs : List Text) :
    walkOrder (as ++ bs) (as ++ cs) = walkOrder bs cs := by
  induction as with
  | nil => rfl
  | cons a as ih => rw [List.cons_append, List.cons_append, walkOrder, Text.order_self, ih]

theorem walkOrder_more (as bs : List Text) : walkOrder as (as ++ bs) = true := by
  have h := walkOrder_append as [] bs
  rwa [List.append_nil] at h

/-- A walk comes to `a` before it comes to `b`. -/
structure Before (a b : Text) : Prop where
  le : walkOrder (Path.elements a) (Path.elements b) = true
  ne : a ≠ b

/-! ## What a walk reaches -/

/-- A disk in memory: all that it holds has a path of a file tree. -/
structure InMemory (d : Disk) : Prop where
  notNative : d.isNative = false
  valid : ∀ path, path ∈ d.files.map Prod.fst ∨ path ∈ d.dirs → Path.isValid path = true

theorem isBelow_trans (hp : Path.isValid p = true) (hdir : isBelow dir up = true)
    (hup : isBelow up p = true) : isBelow dir p = true := by
  have hvalid := isValid_of_isBelow hp hup
  have houter := isValid_of_isBelow hvalid hdir
  obtain ⟨more, hmore, hsteps⟩ := (isBelow_iff_steps houter hvalid).mp hdir
  obtain ⟨rest, -, hrest⟩ := (isBelow_iff_steps hvalid hp).mp hup
  refine (isBelow_iff_steps houter hp).mpr ⟨more ++ rest, ?_, ?_⟩
  · exact List.append_ne_nil_of_left_ne_nil hmore _
  · rw [hrest, hsteps, List.append_assoc]

theorem isDir_of_isBelow (hp : d.isDir p = true) (hbelow : isBelow up p = true) :
    d.isDir up = true := by
  by_cases hup : up = "."
  · exact isDir_iff.mpr (.inl hup)
  · exact isDir_of_below hp (ne_dot_of_isBelow hbelow) ((isBelow_iff hup).mp hbelow)

theorem isBelow_join (hdir : Path.isValid dir = true) (he : Path.IsStep e) :
    isBelow dir (Path.join [dir, e]) = true := by
  obtain ⟨hvalid, hsteps⟩ := Path.join_step hdir he
  exact (isBelow_iff_steps hdir hvalid).mpr ⟨[e], List.cons_ne_nil _ _, hsteps⟩

/-- Nothing lies between a directory and its elements. -/
theorem not_between_join (hdir : Path.isValid dir = true) (he : Path.IsStep e)
    (hup : isBelow dir up = true) : isBelow up (Path.join [dir, e]) = false := by
  rw [← Bool.not_eq_true]
  intro hto
  obtain ⟨hvalid, hsteps⟩ := Path.join_step hdir he
  have hmiddle := isValid_of_isBelow hvalid hto
  obtain ⟨more, hmore, hout⟩ := (isBelow_iff_steps hdir hmiddle).mp hup
  obtain ⟨rest, hrest, hin⟩ := (isBelow_iff_steps hmiddle hvalid).mp hto
  rw [hsteps, hout, List.append_assoc, List.append_cancel_left_eq] at hin
  have hlength := congrArg List.length hin
  rw [List.length_append, List.length_singleton] at hlength
  have := List.length_pos_iff.mpr hmore
  have := List.length_pos_iff.mpr hrest
  omega

theorem eq_or_isBelow_of_steps (hup : Path.isValid up = true) (hp : Path.isValid p = true)
    (h : Path.steps up <+: Path.steps p) : up = p ∨ isBelow up p = true := by
  obtain ⟨more, hmore⟩ := h
  by_cases hnil : more = []
  · rw [hnil, List.append_nil] at hmore
    exact .inl (Path.steps_inj hup hp hmore)
  · exact .inr ((isBelow_iff_steps hup hp).mpr ⟨more, hnil, hmore.symm⟩)

/-- The way to a path is one line of directories. -/
theorem comparable_of_isBelow (hp : Path.isValid p = true) (hup : isBelow up p = true)
    (hdir : isBelow dir p = true) : up = dir ∨ isBelow up dir = true ∨ isBelow dir up = true := by
  have hvalid := isValid_of_isBelow hp hup
  have houter := isValid_of_isBelow hp hdir
  obtain ⟨more, -, hmore⟩ := (isBelow_iff_steps hvalid hp).mp hup
  obtain ⟨rest, -, hrest⟩ := (isBelow_iff_steps houter hp).mp hdir
  rcases List.prefix_or_prefix_of_prefix ⟨more, hmore.symm⟩ ⟨rest, hrest.symm⟩ with h | h
  · exact (eq_or_isBelow_of_steps hvalid houter h).imp_right .inl
  · exact (eq_or_isBelow_of_steps houter hvalid h).imp Eq.symm .inr

/-- What lies below a directory is an element of it or lies below one. -/
theorem eq_or_below_join (hp : Path.isValid p = true) (h : isBelow dir p = true) :
    ∃ e, Path.IsStep e ∧ (p = Path.join [dir, e] ∨ isBelow (Path.join [dir, e]) p = true) := by
  have hdir := isValid_of_isBelow hp h
  obtain ⟨more, hmore, hsteps⟩ := (isBelow_iff_steps hdir hp).mp h
  obtain ⟨e, rest, rfl⟩ := List.exists_cons_of_ne_nil hmore
  have he : Path.IsStep e := Path.isStep_of_mem_steps hp (by simp [hsteps])
  obtain ⟨hvalid, hjoin⟩ := Path.join_step hdir he
  refine ⟨e, he, ?_⟩
  rw [List.append_cons, ← hjoin] at hsteps
  exact (eq_or_isBelow_of_steps hvalid hp ⟨rest, hsteps.symm⟩).imp_left Eq.symm

namespace InMemory

theorem look_eq_dir_iff (h : d.InMemory) :
    d.look p = .dir ↔ Path.isValid p = true ∧ d.file? p = none ∧ d.isDir p = true := by
  constructor
  · intro hlook
    have hnames := names_of_look hlook
    exact ⟨hnames.isValid, (look_eq_dir hnames).mp hlook⟩
  · rintro ⟨hvalid, hdir⟩
    have hnames : d.Names p := by simp [Names, hvalid, h.notNative]
    exact (look_eq_dir hnames).mpr hdir

theorem isValid_of_isDir (h : d.InMemory) (hp : d.isDir p = true) : Path.isValid p = true := by
  rcases isDir_iff.mp hp with rfl | hmem | ⟨path, hpath, hbelow⟩
  · exact Path.isValid_dot
  · exact h.valid p (.inr hmem)
  · exact isValid_of_isBelow (h.valid path hpath) hbelow

end InMemory

theorem mem_dirPaths_iff (hp : p ≠ ".") : p ∈ d.dirPaths ↔ d.isDir p = true := by
  simp only [mem_dirPaths, isDir_iff, mem_ancestors, isBelow_iff hp, hp, false_or]

theorem mem_dirsBelow : p ∈ d.dirsBelow dir ↔ p ∈ d.dirPaths ∧ d.isReached dir p = true := by
  rw [dirsBelow, sortWalk, List.mem_mergeSort, List.mem_filter]

namespace InMemory

/-- **What a walk reaches** are the directories with only directories on the way. -/
theorem mem_dirsBelow_iff (h : d.InMemory) : p ∈ d.dirsBelow dir ↔
    isBelow dir p = true ∧ d.look dir = .dir ∧ d.look p = .dir ∧
      ∀ up, isBelow dir up = true → isBelow up p = true → d.look up = .dir := by
  simp only [mem_dirsBelow, isReached, Bool.and_eq_true, Bool.not_eq_true',
    Option.isSome_eq_false_iff, Option.isNone_iff_eq_none, List.all_eq_true, Bool.or_eq_true]
  constructor
  · rintro ⟨hmem, ⟨⟨hbelow, hfree⟩, hfile⟩, hway⟩
    have hdir := (mem_dirPaths_iff (ne_dot_of_isBelow hbelow)).mp hmem
    have hvalid := h.isValid_of_isDir hdir
    refine ⟨hbelow, h.look_eq_dir_iff.mpr ⟨isValid_of_isBelow hvalid hbelow, hfree,
      isDir_of_isBelow hdir hbelow⟩, h.look_eq_dir_iff.mpr ⟨hvalid, hfile, hdir⟩, ?_⟩
    intro up hup hto
    have hnone : d.file? up = none := by
      rcases hway up ((mem_ancestors_iff hvalid).mpr ⟨ne_dot_of_isBelow hup, hto⟩) with hnot | hnone
      · rw [hup] at hnot
        cases hnot
      · exact hnone
    exact h.look_eq_dir_iff.mpr
      ⟨isValid_of_isBelow hvalid hto, hnone, isDir_of_isBelow hdir hto⟩
  · rintro ⟨hbelow, houter, hlook, hway⟩
    obtain ⟨hvalid, hfile, hdir⟩ := h.look_eq_dir_iff.mp hlook
    refine ⟨(mem_dirPaths_iff (ne_dot_of_isBelow hbelow)).mpr hdir,
      ⟨⟨hbelow, (h.look_eq_dir_iff.mp houter).2.1⟩, hfile⟩, ?_⟩
    intro up hup
    cases hin : isBelow dir up with
    | false => exact .inl rfl
    | true =>
      have hto := ((mem_ancestors_iff hvalid).mp hup).2
      exact .inr (h.look_eq_dir_iff.mp (hway up hin hto)).2.1

/-- What is reached below a directory has steps that go on from those of the directory. -/
theorem steps_of_mem_dirsBelow (h : d.InMemory) (hp : p ∈ d.dirsBelow dir) :
    Path.isValid p = true ∧ Path.isValid dir = true ∧
      ∃ more, more ≠ [] ∧ Path.steps p = Path.steps dir ++ more := by
  obtain ⟨hbelow, hdir, hlook, -⟩ := h.mem_dirsBelow_iff.mp hp
  have hvalid := (h.look_eq_dir_iff.mp hlook).1
  have houter := (h.look_eq_dir_iff.mp hdir).1
  exact ⟨hvalid, houter, (isBelow_iff_steps houter hvalid).mp hbelow⟩

/-- **One step of a walk.** What it reaches below a directory are the directories in it and what it
reaches below those. -/
theorem mem_dirsBelow_step (h : d.InMemory) : p ∈ d.dirsBelow dir ↔
    ∃ e, Path.IsStep e ∧ d.look dir = .dir ∧ d.look (Path.join [dir, e]) = .dir ∧
      (p = Path.join [dir, e] ∨ p ∈ d.dirsBelow (Path.join [dir, e])) := by
  constructor
  · intro hp
    obtain ⟨hbelow, hdir, hlook, hway⟩ := h.mem_dirsBelow_iff.mp hp
    have hvalid := (h.look_eq_dir_iff.mp hlook).1
    have houter := (h.look_eq_dir_iff.mp hdir).1
    obtain ⟨e, he, rfl | hin⟩ := eq_or_below_join hvalid hbelow
    · exact ⟨e, he, hdir, hlook, .inl rfl⟩
    · have hjoin := isBelow_join houter he
      have hchild := hway _ hjoin hin
      refine ⟨e, he, hdir, hchild, .inr (h.mem_dirsBelow_iff.mpr ⟨hin, hchild, hlook, ?_⟩)⟩
      intro up hup hto
      exact hway up (isBelow_trans (isValid_of_isBelow hvalid hto) hjoin hup) hto
  · rintro ⟨e, he, hdir, hchild, hp⟩
    have houter := (h.look_eq_dir_iff.mp hdir).1
    have hjoin := isBelow_join houter he
    refine h.mem_dirsBelow_iff.mpr ?_
    rcases hp with rfl | hp
    · refine ⟨hjoin, hdir, hchild, ?_⟩
      intro up hup hto
      rw [not_between_join houter he hup] at hto
      cases hto
    · obtain ⟨hin, -, hlook, hway⟩ := h.mem_dirsBelow_iff.mp hp
      have hvalid := (h.look_eq_dir_iff.mp hlook).1
      refine ⟨isBelow_trans hvalid hjoin hin, hdir, hlook, ?_⟩
      intro up hup hto
      -- the way leads through the element of the directory: `up` is that or lies below it
      rcases comparable_of_isBelow hvalid hto hin with rfl | hbetween | hunder
      · exact hchild
      · rw [not_between_join houter he hup] at hbetween
        cases hbetween
      · exact hway up hunder hto

end InMemory

/-! ## Walks -/

/-- The names of the directories in a directory, in order. -/
structure Lists (d : Disk) (dir : Text) (names : List Text) : Prop where
  sorted : names.Pairwise fun a b => Text.order a b = .lt
  mem_iff : ∀ e, e ∈ names ↔
    Path.IsStep e ∧ d.look dir = .dir ∧ d.look (Path.join [dir, e]) = .dir

/-- `Walk d pending order`: the walk that still has to visit `pending` comes to directories in this
order. After a directory it visits those in it, and only then what was pending before. -/
inductive Walk (d : Disk) : List Text → List Text → Prop
  | done : Walk d [] []
  | visit {dir : Text} {names pending order : List Text} (lists : d.Lists dir names)
      (rest : Walk d (names.map (fun e => Path.join [dir, e]) ++ pending) order) :
      Walk d (dir :: pending) (dir :: order)

/-- What a walk comes to when it starts at a directory. -/
def visited (d : Disk) (dir : Text) : List Text := dir :: d.dirsBelow dir

theorem dirsBelow_pairwise (d : Disk) (dir : Text) : (d.dirsBelow dir).Pairwise Before := by
  have hsorted := @List.pairwise_mergeSort _
    (fun a b => walkOrder (Path.elements a) (Path.elements b))
    (fun _ _ _ hab hbc => walkOrder_trans hab hbc) (fun _ _ => walkOrder_total _ _)
    (d.dirPaths.filter (d.isReached dir))
  have hnodup : (d.dirsBelow dir).Nodup :=
    (List.mergeSort_perm _ _).nodup_iff.mpr (d.nodup_dirPaths.filter _)
  exact hsorted.imp₂ (fun _ _ hle hne => ⟨hle, hne⟩) hnodup

/-- Two lists in the order of a walk that hold the same are equal. -/
theorem eq_of_pairwise_before {l l' : List Text} (hl : l.Pairwise Before) (hl' : l'.Pairwise Before)
    (hmem : ∀ p, p ∈ l ↔ p ∈ l') : l = l' := by
  have hperm : l.Perm l' :=
    (List.perm_ext_iff_of_nodup (hl.imp Before.ne) (hl'.imp Before.ne)).mpr hmem
  refine hperm.eq_of_pairwise ?_ (hl.imp Before.le) (hl'.imp Before.le)
  intro a b _ _ hab hba
  rw [← Path.join_elements a, walkOrder_antisymm hab hba, Path.join_elements]

theorem before_of_steps {a b : Text} (ha : Path.isValid a = true) (hb : Path.isValid b = true)
    (hanil : Path.steps a ≠ []) (hbnil : Path.steps b ≠ [])
    (hle : walkOrder (Path.steps a) (Path.steps b) = true)
    (hne : Path.steps a ≠ Path.steps b) : Before a b := by
  have hadot : a ≠ "." := fun h => hanil ((Path.steps_eq_nil_iff ha).mpr h)
  have hbdot : b ≠ "." := fun h => hbnil ((Path.steps_eq_nil_iff hb).mpr h)
  refine ⟨?_, fun h => hne (congrArg Path.steps h)⟩
  rwa [← Path.steps_of_isValid ha hadot, ← Path.steps_of_isValid hb hbdot]

namespace InMemory

/-- What a walk comes to from an element of a directory. -/
theorem steps_of_mem_visited (h : d.InMemory) (hdir : Path.isValid dir = true)
    (he : Path.IsStep e) (hp : p ∈ d.visited (Path.join [dir, e])) :
    Path.isValid p = true ∧ ∃ more, Path.steps p = Path.steps dir ++ e :: more := by
  obtain ⟨hvalid, hsteps⟩ := Path.join_step hdir he
  rcases List.mem_cons.mp hp with rfl | hp
  · exact ⟨hvalid, [], hsteps⟩
  · obtain ⟨hpvalid, -, more, -, hmore⟩ := h.steps_of_mem_dirsBelow hp
    refine ⟨hpvalid, more, ?_⟩
    rw [hmore, hsteps, List.append_assoc, List.singleton_append]

theorem visited_pairwise (h : d.InMemory) (hdir : Path.steps dir ≠ []) :
    (d.visited dir).Pairwise Before := by
  refine List.pairwise_cons.mpr ⟨?_, d.dirsBelow_pairwise dir⟩
  intro p hp
  obtain ⟨hvalid, houter, more, hmore, hsteps⟩ := h.steps_of_mem_dirsBelow hp
  refine before_of_steps houter hvalid hdir ?_ ?_ ?_
  · rw [hsteps]
    exact List.append_ne_nil_of_left_ne_nil hdir _
  · rw [hsteps]
    exact walkOrder_more _ _
  · rw [hsteps]
    exact fun heq => hmore (List.self_eq_append_right.mp heq)

/-- **A walk goes through the listed directories one after the other.** -/
theorem dirsBelow_eq (h : d.InMemory) (hnames : d.Lists dir names) :
    d.dirsBelow dir = (names.map fun e => Path.join [dir, e]).flatMap d.visited := by
  have hstep : ∀ e ∈ names, Path.isValid dir = true ∧ Path.IsStep e := by
    intro e he
    obtain ⟨hstep, hlook, -⟩ := (hnames.mem_iff e).mp he
    exact ⟨(h.look_eq_dir_iff.mp hlook).1, hstep⟩
  refine eq_of_pairwise_before (d.dirsBelow_pairwise dir) ?_ ?_
  · rw [List.flatMap_map, List.pairwise_flatMap]
    constructor
    · intro e he
      obtain ⟨hdir, hname⟩ := hstep e he
      refine h.visited_pairwise ?_
      rw [(Path.join_step hdir hname).2]
      exact List.append_ne_nil_of_right_ne_nil _ (List.cons_ne_nil _ _)
    · refine hnames.sorted.imp_of_mem ?_
      intro e e' he he' hlt p hp q hq
      obtain ⟨hdir, hname⟩ := hstep e he
      obtain ⟨hpvalid, more, hmore⟩ := h.steps_of_mem_visited hdir hname hp
      obtain ⟨hqvalid, rest, hrest⟩ := h.steps_of_mem_visited hdir (hstep e' he').2 hq
      refine before_of_steps hpvalid hqvalid (by simp [hmore]) (by simp [hrest]) ?_ ?_
      · rw [hmore, hrest, walkOrder_append, walkOrder, hlt]
      · rw [hmore, hrest]
        intro heq
        have hsame : e = e' := (List.cons.inj (List.append_cancel_left heq)).1
        rw [hsame, Text.order_self] at hlt
        cases hlt
  · intro p
    rw [h.mem_dirsBelow_step, List.flatMap_map, List.mem_flatMap]
    simp only [hnames.mem_iff, visited, List.mem_cons, and_assoc]

end InMemory

/-- The last step of a path that is one step further than `dir`. -/
def lastStep? (dir p : Text) : Option Text :=
  if (Path.steps p).dropLast = Path.steps dir then (Path.steps p).getLast? else none

theorem lastStep?_eq_some : lastStep? dir p = some e ↔ Path.steps p = Path.steps dir ++ [e] := by
  rw [lastStep?]
  constructor
  · intro h
    split at h
    · rename_i hdir
      rw [← hdir, List.dropLast_append_getLast? e h]
    · cases h
  · intro h
    rw [h, List.dropLast_concat, if_pos rfl, List.getLast?_concat]

/-- The names of the directories in a directory. -/
def subdirectories (d : Disk) (dir : Text) : List Text :=
  (d.dirsBelow dir).filterMap (lastStep? dir)

namespace InMemory

theorem lists_subdirectories (h : d.InMemory) (dir : Text) :
    d.Lists dir (d.subdirectories dir) where
  sorted := by
    rw [subdirectories, List.pairwise_filterMap]
    refine (d.dirsBelow_pairwise dir).imp_of_mem ?_
    intro p q hp hq hbefore e he e' he'
    rw [lastStep?_eq_some] at he he'
    obtain ⟨hpvalid, -⟩ := h.steps_of_mem_dirsBelow hp
    obtain ⟨hqvalid, -⟩ := h.steps_of_mem_dirsBelow hq
    have hle := hbefore.le
    rw [← Path.steps_of_isValid hpvalid (ne_dot_of_isBelow (h.mem_dirsBelow_iff.mp hp).1),
      ← Path.steps_of_isValid hqvalid (ne_dot_of_isBelow (h.mem_dirsBelow_iff.mp hq).1),
      he, he', walkOrder_append, walkOrder] at hle
    cases horder : Text.order e e' with
    | lt => rfl
    | gt => simp [horder] at hle
    | eq =>
      rw [Text.order_eq_compareLex] at horder
      have hsame : e = e' := Std.LawfulEqCmp.eq_of_compare horder
      exact absurd (Path.steps_inj hpvalid hqvalid (by rw [he, he', hsame])) hbefore.ne
  mem_iff e := by
    rw [subdirectories, List.mem_filterMap]
    simp only [lastStep?_eq_some]
    constructor
    · rintro ⟨p, hp, hsteps⟩
      obtain ⟨hvalid, houter, -⟩ := h.steps_of_mem_dirsBelow hp
      have he : Path.IsStep e := Path.isStep_of_mem_steps hvalid (by simp [hsteps])
      obtain ⟨hjoin, hjoined⟩ := Path.join_step houter he
      obtain rfl : p = Path.join [dir, e] :=
        Path.steps_inj hvalid hjoin (hsteps.trans hjoined.symm)
      obtain ⟨-, hdir, hlook, -⟩ := h.mem_dirsBelow_iff.mp hp
      exact ⟨he, hdir, hlook⟩
    · rintro ⟨he, hdir, hlook⟩
      refine ⟨Path.join [dir, e], h.mem_dirsBelow_step.mpr ⟨e, he, hdir, hlook, .inl rfl⟩, ?_⟩
      exact (Path.join_step (h.look_eq_dir_iff.mp hdir).1 he).2

/-- One visit: what is still to come are the directories in the visited one, and then the rest. -/
theorem flatMap_visited_cons (h : d.InMemory) (hnames : d.Lists dir names) (pending : List Text) :
    (dir :: pending).flatMap d.visited =
      dir :: (names.map (fun e => Path.join [dir, e]) ++ pending).flatMap d.visited := by
  rw [List.flatMap_cons, visited, h.dirsBelow_eq hnames, List.flatMap_append, List.cons_append]

/-- The directories in a directory are those at the listed names. -/
theorem dirsIn_eq (h : d.InMemory) (dir : Text) :
    d.dirsIn dir = (d.subdirectories dir).map fun e => Path.join [dir, e] := by
  rw [dirsIn, subdirectories, List.map_filterMap, ← List.filterMap_eq_filter]
  refine List.filterMap_congr ?_
  intro p hp
  obtain ⟨hvalid, houter, -⟩ := h.steps_of_mem_dirsBelow hp
  have hdot : p ≠ "." := ne_dot_of_isBelow (h.mem_dirsBelow_iff.mp hp).1
  obtain ⟨hback, hsteps⟩ := Path.steps_dir hvalid hdot
  by_cases hdir : Path.dir p = dir
  · obtain ⟨e, he⟩ : ∃ e, (Path.steps p).getLast? = some e :=
      Option.ne_none_iff_exists'.mp fun hnone =>
        hdot ((Path.steps_eq_nil_iff hvalid).mp (List.getLast?_eq_none_iff.mp hnone))
    have hlast : lastStep? dir p = some e := by rw [lastStep?, if_pos (hdir ▸ hsteps.symm), he]
    have hinner := lastStep?_eq_some.mp hlast
    have hstep : Path.IsStep e := Path.isStep_of_mem_steps hvalid (by simp [hinner])
    obtain ⟨hjoin, hjoined⟩ := Path.join_step houter hstep
    have hsame : p = Path.join [dir, e] := Path.steps_inj hvalid hjoin (hinner.trans hjoined.symm)
    rw [hlast, Option.map_some, ← hsame]
    simp [Option.guard, hdir]
  · have hlast : lastStep? dir p = none :=
      if_neg fun heq => hdir (Path.steps_inj hback houter (hsteps.trans heq))
    rw [hlast]
    simp [Option.guard, hdir]

/-- A walk comes to a directory and then to what it comes to from the directories in it. -/
theorem visited_eq (h : d.InMemory) (dir : Text) :
    d.visited dir = dir :: (d.dirsIn dir).flatMap d.visited := by
  rw [visited, h.dirsBelow_eq (h.lists_subdirectories dir), h.dirsIn_eq]

/-- Below a directory in another there are fewer directories than below that one. -/
theorem length_dirsBelow_lt (h : d.InMemory) (hinner : inner ∈ d.dirsIn dir) :
    (d.dirsBelow inner).length < (d.dirsBelow dir).length := by
  have hvisited := congrArg List.length (h.visited_eq dir)
  obtain ⟨before, after, hsplit⟩ := List.append_of_mem hinner
  rw [hsplit, List.flatMap_append, List.flatMap_cons] at hvisited
  simp only [visited, List.length_cons, List.length_append] at hvisited
  omega

/-- **There is one walk,** and it comes to directories in the order in which they are given. -/
theorem walk_iff (h : d.InMemory) : d.Walk pending order ↔ order = pending.flatMap d.visited := by
  constructor
  · intro hwalk
    induction hwalk with
    | done => rfl
    | visit lists _ ih => rw [ih, ← h.flatMap_visited_cons lists]
  · intro horder
    -- each visit takes one directory off what is still to come
    induction hlength : order.length generalizing pending order with
    | zero =>
      cases pending with
      | nil => exact horder ▸ .done
      | cons dir pending =>
        rw [horder] at hlength
        cases hlength
    | succ n ih =>
      cases pending with
      | nil =>
        rw [horder] at hlength
        cases hlength
      | cons dir pending =>
        have hlists := h.lists_subdirectories dir
        rw [h.flatMap_visited_cons hlists] at horder
        subst horder
        exact .visit hlists (ih rfl (Nat.succ.inj hlength))

end InMemory

end Disk

/-! ## Candidates -/

namespace Library
variable {lib : Library} {disk : Disk} {uri file p : Text}

/-- `name` is what a target asks for: the target without the white space around it, with the ending
of source files. -/
def AskedBy (uri name : Text) : Prop :=
  ∃ bare, Text.Trimmed uri bare ∧
    (extension <:+ bare ∧ name = bare ∨ ¬extension <:+ bare ∧ name = bare ++ extension)

theorem askedBy_fileName (uri : Text) : AskedBy uri (fileName uri) := by
  refine ⟨uri.trim, Text.trimmed_trim uri, ?_⟩
  rw [fileName]
  by_cases hending : extension <:+ uri.trim
  · exact .inl ⟨hending, if_pos (List.isSuffixOf_iff_suffix.mpr hending)⟩
  · exact .inr ⟨hending, if_neg (fun h => hending (List.isSuffixOf_iff_suffix.mp h))⟩

/-- Where a file may be, in order: at its name, next to the importing file, and in what is visited
from each load path and from the template location. -/
def candidates (lib : Library) (visited : Text → List Text) (name file : Text) : List Text :=
  [lib.toDisk name] ++
    (if file = [] ∨ Path.isAbs name = true then []
      else [Path.join [Path.dir (lib.toDisk file), name]]) ++
    (lib.loadPaths ++ if lib.templateLocation = [] then [] else [lib.templateLocation]).flatMap
      fun root => (visited (lib.toDisk root)).map fun dir => Path.join [dir, name]

theorem candidates_eq (lib : Library) (visited : Text → List Text) (name file : Text) :
    lib.candidates visited name file = [lib.toDisk name] ++
      (if file = [] ∨ Path.isAbs name = true then []
        else [Path.join [Path.dir (lib.toDisk file), name]]) ++
      lib.searched.flatMap fun root =>
        (visited (lib.toDisk root)).map fun dir => Path.join [dir, name] := by
  simp only [candidates, searched, List.isEmpty_iff]

/-- The fault of a target that is not found. -/
def notFound (name : Text) : Fault :=
  .language .importNotFound ("unable to find " ++ name) .none (some .notFound)

theorem find?_sibling (lib : Library) (name file : Text) (test : Text → Bool) :
    (if file = [] ∨ Path.isAbs name = true then []
      else [Path.join [Path.dir (lib.toDisk file), name]]).find? test =
      (lib.sibling? name file).filter test := by
  rw [sibling?]
  by_cases hnone : file = [] ∨ Path.isAbs name = true
  · simp [hnone]
  · have hsome : (file.isEmpty || Path.isAbs name) = false := by simpa using hnone
    rw [if_neg hnone, List.find?_singleton, hsome]
    rfl

/-- **A search that stops early finds the first file of a walk.** The induction is on the number of
directories below the one to search. -/
theorem find?_eq (hdisk : disk.InMemory) (dir name : Text) :
    find? disk dir name =
      ((disk.visited dir).map fun dir => Path.join [dir, name]).find? disk.isFile := by
  induction hcount : (disk.dirsBelow dir).length using Nat.strongRecOn generalizing dir with
  | ind n ih =>
    subst hcount
    rw [find?, hdisk.visited_eq, List.map_cons, List.find?_cons]
    cases disk.isFile (Path.join [dir, name]) with
    | true => rfl
    | false =>
      simp only [Bool.false_eq_true, if_false]
      rw [List.map_flatMap, List.find?_flatMap, ← List.head?_filterMap, ← List.head?_filterMap]
      refine congrArg List.head? (List.filterMap_congr ?_)
      intro inner hinner
      have hfewer := hdisk.length_dirsBelow_lt hinner
      rw [dif_pos hfewer]
      exact ih _ hfewer inner rfl

/-- **A target is resolved to the first candidate that is a file.** -/
theorem InMemory.resolve_eq_find? (hlib : lib.InMemory) (hdisk : disk.InMemory) (uri file : Text) :
    lib.resolve disk uri file =
      ((lib.candidates disk.visited (fileName uri) file).find? disk.isFile).elim
        (.error (notFound (fileName uri))) .ok := by
  have hfrom (q : Text) : lib.fromDisk q = q := by rw [fromDisk, hlib.root, List.nil_append]
  rw [candidates_eq, List.find?_append, List.find?_append, find?_sibling,
    List.find?_flatMap, List.find?_singleton, resolve]
  simp only [hfrom, ← find?_eq hdisk]
  cases hgiven : disk.isFile (lib.toDisk (fileName uri)) with
  | true => rfl
  | false =>
    cases (lib.sibling? (fileName uri) file).filter disk.isFile with
    | some q => rfl
    | none => cases lib.searched.findSome? _ <;> rfl

/-- A resolved target can be read. -/
theorem InMemory.read_of_resolve (hlib : lib.InMemory) (h : lib.resolve disk uri file = .ok p) :
    ∃ f, disk.look p = .file f ∧ lib.read disk p = .ok f.text := by
  have hfile := hlib.isFile_of_resolve h
  have hsame := hlib.toDisk_of_isFile hfile
  rw [Disk.isFile] at hfile
  split at hfile
  · rename_i f hlook
    refine ⟨f, hlook, ?_⟩
    rw [read_eq_ok, hsame, Disk.read, hlook]
  · cases hfile

/-- **Resolving finds the first candidate.** The name is the trimmed target with the ending of
source files. From each root the directories are visited by the one walk there is, which takes a
directory before those in it and these in the order of their names. A target is resolved to the
first candidate that is a regular file, and that file can be read. It is not found, and nothing else
goes wrong, exactly if no candidate is a file. -/
theorem resolve_finds_first (hlib : lib.InMemory) (hdisk : disk.InMemory) (uri file : Text) :
    AskedBy uri (fileName uri) ∧
    ∃ visited : Text → List Text,
      (∀ root order, disk.Walk [root] order ↔ order = visited root) ∧
      (∀ p, lib.resolve disk uri file = .ok p ↔
        (lib.candidates visited (fileName uri) file).find? disk.isFile = some p) ∧
      (∀ fault, lib.resolve disk uri file = .error fault ↔
        fault = notFound (fileName uri) ∧
          ∀ p ∈ lib.candidates visited (fileName uri) file, disk.isFile p = false) ∧
      ∀ p, lib.resolve disk uri file = .ok p →
        ∃ f, disk.look p = .file f ∧ lib.read disk p = .ok f.text := by
  refine ⟨askedBy_fileName uri, disk.visited, ?_, ?_, ?_, fun p => hlib.read_of_resolve⟩
  · intro root order
    rw [hdisk.walk_iff, List.flatMap_singleton]
  · intro p
    rw [hlib.resolve_eq_find? hdisk]
    cases (lib.candidates disk.visited (fileName uri) file).find? disk.isFile <;> simp
  · intro fault
    have hnone := @List.find?_eq_none _ disk.isFile
      (lib.candidates disk.visited (fileName uri) file)
    simp only [Bool.not_eq_true] at hnone
    rw [hlib.resolve_eq_find? hdisk, ← hnone]
    cases (lib.candidates disk.visited (fileName uri) file).find? disk.isFile with
    | none => simp [eq_comm]
    | some q => simp

/-- A disk with two files of one name, the deeper of them on the way that comes first. -/
def nestedDisk : Disk where
  files := [("main.sass", ⟨"@import x", 0⟩), ("lib/b/x.sass", ⟨"b", 0⟩),
    ("lib/a/c/x.sass", ⟨"c", 0⟩)]
  dirs := []
  isNative := false

/-- A library that searches `lib`. -/
def nestedLibrary : Library := inMemory ⟨["lib"], [], 0⟩

theorem visited_nestedDisk :
    nestedDisk.visited "lib" = (["lib", "lib/a", "lib/a/c", "lib/b"] : List Text) := by
  have hreached : nestedDisk.dirPaths.filter (nestedDisk.isReached "lib") =
      (["lib/b", "lib/a", "lib/a/c"] : List Text) := by decide +kernel
  have hperm : (["lib/b", "lib/a", "lib/a/c"] : List Text).Perm ["lib/a", "lib/a/c", "lib/b"] := by
    decide +kernel
  rw [Disk.visited, Disk.dirsBelow, hreached, Disk.sortWalk_eq_of_perm hperm, Disk.sortWalk,
    List.mergeSort_of_pairwise (by decide +kernel)]

/-- White space around the target, and two files below the load path: the walk enters `lib/a` and
what is in it before it comes to `lib/b`. -/
theorem resolve_finds_first_nested :
    nestedLibrary.InMemory ∧ nestedDisk.InMemory ∧
      nestedLibrary.resolve nestedDisk " x " "main.sass" = .ok ("lib/a/c/x.sass" : Text) ∧
      nestedLibrary.read nestedDisk "lib/a/c/x.sass" = .ok ("c" : Text) := by
  have hlib : nestedLibrary.InMemory := inMemory_new _
  have hdisk : nestedDisk.InMemory := by
    refine ⟨rfl, fun path hpath => ?_⟩
    have hall : (nestedDisk.files.map Prod.fst ++ nestedDisk.dirs).all Path.isValid = true := by
      decide +kernel
    exact List.all_eq_true.mp hall path (List.mem_append.mpr hpath)
  obtain ⟨-, visited, hwalk, hok, -, hread⟩ := resolve_finds_first hlib hdisk " x " "main.sass"
  have hvisited : visited "lib" = (["lib", "lib/a", "lib/a/c", "lib/b"] : List Text) := by
    rw [← (hwalk "lib" _).mp (hdisk.walk_iff.mpr rfl), List.flatMap_singleton, visited_nestedDisk]
  have hroots : nestedLibrary.searched = (["lib"] : List Text) := by decide +kernel
  have hroot : nestedLibrary.toDisk "lib" = ("lib" : Text) := by decide +kernel
  have hfound : nestedLibrary.resolve nestedDisk " x " "main.sass" =
      .ok ("lib/a/c/x.sass" : Text) := by
    rw [hok, candidates_eq, hroots, List.flatMap_singleton, hroot, hvisited]
    decide +kernel
  have hlook : nestedDisk.look "lib/a/c/x.sass" = .file ⟨"c", 0⟩ := by decide +kernel
  obtain ⟨f, hfile, htext⟩ := hread _ hfound
  rw [hlook] at hfile
  cases hfile
  exact ⟨hlib, hdisk, hfound, htext⟩

end Library

end IndentedSass
