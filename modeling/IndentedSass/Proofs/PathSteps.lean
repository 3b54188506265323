import IndentedSass.Proofs.OutputPlaces

/-!
# Paths step by step

The steps of a clean path are names, after two dots for every directory that it leaves first
(`Path.isName_or_dots`). Joining a path of names goes on from where a path leads
(`Path.steps_join_names`). A path of a file tree is known by its steps alone (`Path.steps_inj`), and
lies below another if that one's steps come first (`Disk.isBelow_iff_steps`).
-/

namespace IndentedSass

/-! ## Clean paths step by step -/

namespace Path
open Ascii
variable {p q e s : Text} {before : List Text}

theorem slash_not_mem_cleanElements (p : Text) : ∀ e ∈ cleanElements p, slash ∉ e := by
  intro e he
  exact slash_not_mem_foldl (fun x hx => Text.not_mem_of_mem_splitOn hx) (List.forall_mem_nil _) e
    (List.mem_reverse.mp he)

theorem tidy_cleanElements (p : Text) : Tidy (isAbs p) (cleanElements p).reverse := by
  rw [cleanElements, List.reverse_reverse]
  exact tidy_foldl _ trivial

/-- An element of a clean path is a name or two dots. -/
theorem isName_or_dots_of_tidy {rooted : Bool} {done : List Text} (h : Tidy rooted done)
    (he : e ∈ done) : IsName e ∨ rooted = false ∧ e = ".." := by
  induction done with
  | nil => cases he
  | cons last done ih =>
    rcases h with ⟨hname, hdone⟩ | ⟨hrooted, hlast, hdone⟩
    · rcases List.mem_cons.mp he with rfl | he
      · exact .inl hname
      · exact ih hdone he
    · rcases List.mem_cons.mp he with rfl | he
      · exact .inr ⟨hrooted, hlast⟩
      · exact .inr ⟨hrooted, hdone e he⟩

theorem isName_or_dots (he : e ∈ cleanElements p) : IsName e ∨ isAbs p = false ∧ e = ".." :=
  isName_or_dots_of_tidy (tidy_cleanElements p) (List.mem_reverse.mpr he)

/-- **A clean path from the root is made of names.** -/
theorem isName_of_rooted (hp : isAbs p = true) (he : e ∈ cleanElements p) : IsName e := by
  rcases isName_or_dots he with hname | ⟨hrelative, -⟩
  · exact hname
  · rw [hp] at hrelative
    cases hrelative

theorem cleanElements_ne_nil (he : e ∈ cleanElements p) : e ≠ [] :=
  ne_nil_of_tidy (tidy_cleanElements p) e (List.mem_reverse.mpr he)

theorem elements_join_cleanElements (h : cleanElements p ≠ []) :
    elements (Text.join "/" (cleanElements p)) = cleanElements p :=
  elements_join h (slash_not_mem_cleanElements p)

/-- The clean elements of a relative path, joined, are relative and not a mere dot. -/
theorem join_cleanElements (h : cleanElements p ≠ []) :
    isAbs (Text.join "/" (cleanElements p)) = false ∧ Text.join "/" (cleanElements p) ≠ [] ∧
      Text.join "/" (cleanElements p) ≠ "." := by
  have helements := elements_join_cleanElements h
  obtain ⟨first, rest, hfirst⟩ := List.exists_cons_of_ne_nil h
  have hmem : first ∈ cleanElements p := hfirst ▸ List.mem_cons_self
  refine ⟨isAbs_of_elements (helements.trans hfirst) (cleanElements_ne_nil hmem), ?_, ?_⟩
  · intro hempty
    rw [hempty, hfirst] at helements
    exact cleanElements_ne_nil hmem (List.cons.inj helements).1.symm
  · intro hdot
    have hsingle : elements (".": Text) = [("." : Text)] := by decide +kernel
    rw [hdot, hsingle, hfirst] at helements
    have hnot : ¬IsName "." := by
      unfold IsName
      decide +kernel
    rcases isName_or_dots hmem with hname | ⟨-, hdots⟩
    · exact hnot ((List.cons.inj helements).1 ▸ hname)
    · exact absurd ((List.cons.inj helements).1.trans hdots) (by decide +kernel)

theorem clean_rooted (h : isAbs p = true) : clean p = slash :: Text.join "/" (cleanElements p) := by
  simp [clean, h]

theorem clean_relative (h : isAbs p = false) (hne : cleanElements p ≠ []) :
    clean p = Text.join "/" (cleanElements p) := by
  simp [clean, h, (join_cleanElements hne).2.1]

theorem clean_here (h : isAbs p = false) (hnil : cleanElements p = []) : clean p = "." := by
  simp [clean, h, hnil, Text.join]

/-- The steps of a clean path are its clean elements. -/
theorem steps_clean (p : Text) : steps (clean p) = cleanElements p := by
  cases habs : isAbs p with
  | true =>
    rw [clean_rooted habs]
    by_cases hnil : cleanElements p = []
    · rw [hnil]
      decide +kernel
    · have hbody := (join_cleanElements hnil).2.1
      have hdot : slash :: Text.join "/" (cleanElements p) ≠ ("." : Text) := by
        intro heq
        have hhead : some slash = (("." : Text)).head? := congrArg List.head? heq
        exact absurd hhead (by decide +kernel)
      have hroot : slash :: Text.join "/" (cleanElements p) ≠ ("/" : Text) := by
        intro heq
        exact hbody (List.cons.inj (heq.trans slash_eq)).2
      simp [steps, hdot, hroot, isAbs, elements_join_cleanElements hnil]
  | false =>
    by_cases hnil : cleanElements p = []
    · rw [clean_here habs hnil, hnil]
      decide +kernel
    · obtain ⟨hrelative, -, hdot⟩ := join_cleanElements hnil
      have hslash : Text.join "/" (cleanElements p) ≠ "/" := by
        intro heq
        rw [heq] at hrelative
        exact absurd hrelative (by decide +kernel)
      rw [clean_relative habs hnil]
      simp [steps, hdot, hslash, hrelative, elements_join_cleanElements hnil]

theorem isAbs_clean_eq (p : Text) : isAbs (clean p) = isAbs p := by
  cases habs : isAbs p with
  | true =>
    rw [clean_rooted habs]
    rfl
  | false =>
    by_cases hnil : cleanElements p = []
    · rw [clean_here habs hnil]
      decide +kernel
    · rw [clean_relative habs hnil]
      exact (join_cleanElements hnil).1

theorem isAbs_append (h : p ≠ []) (q : Text) : isAbs (p ++ q) = isAbs p := by
  cases p with
  | nil => exact absurd rfl h
  | cons c p => rfl

/-- A text without a slash, put behind a path, lengthens its last element. -/
theorem elements_append_text (h : elements p = before ++ [e]) (hs : slash ∉ s) :
    elements (p ++ s) = before ++ [e ++ s] := by
  have hall : ∀ x ∈ before ++ [e], slash ∉ x := fun x hx =>
    Text.not_mem_of_mem_splitOn (h ▸ hx : x ∈ elements p)
  obtain ⟨hbefore, he⟩ := List.forall_mem_append.mp hall
  have hes : slash ∉ e ++ s := by
    rw [List.mem_append, not_or]
    exact ⟨he e List.mem_cons_self, hs⟩
  have hp : p = Text.join "/" (before ++ [e]) := by rw [← h, join_elements]
  have hps : p ++ s = Text.join "/" (before ++ [e ++ s]) := by
    rw [hp]
    cases before with
    | nil => rfl
    | cons first before =>
      rw [Text.join_append _ (List.cons_ne_nil _ _) (List.cons_ne_nil _ _),
        Text.join_append _ (List.cons_ne_nil _ _) (List.cons_ne_nil _ _)]
      exact List.append_assoc _ _ _
  rw [hps]
  refine elements_join (by simp) (List.forall_mem_append.mpr ⟨hbefore, fun x hx => ?_⟩)
  rw [List.mem_singleton.mp hx]
  exact hes

theorem elements_ne_nil (p : Text) : elements p ≠ [] := Text.splitOn_ne_nil slash p

theorem not_isAbs_of_names (h : ∀ e ∈ elements q, IsName e) : isAbs q = false := by
  obtain ⟨first, rest, hfirst⟩ := List.exists_cons_of_ne_nil (elements_ne_nil q)
  have hmem : first ∈ elements q := hfirst ▸ List.mem_cons_self
  exact isAbs_of_elements hfirst (h first hmem).ne_nil

/-- **A path of names, joined to another path, goes on from there.** -/
theorem steps_join_names (dir : Text) (hq : ∀ e ∈ elements q, IsName e) :
    steps (join [dir, q]) = steps (clean dir) ++ elements q ∧
      isAbs (join [dir, q]) = isAbs dir := by
  have hnames : ((elements q).all fun e => !e.isEmpty && e != ("." : Text) && e != (".." : Text)) =
      true := List.all_eq_true.mpr hq
  have hqne : q.isEmpty = false := by
    cases q with
    | nil => exact absurd (hq [] List.mem_cons_self) (by unfold IsName; decide +kernel)
    | cons c q => rfl
  rw [steps_clean, join]
  by_cases hdir : dir = []
  · subst hdir
    simp only [List.filter, List.isEmpty_nil, Bool.not_true, hqne, Bool.not_false]
    refine ⟨?_, ?_⟩
    · show steps (clean q) = _
      rw [steps_clean, cleanElements, foldl_climb_proper [] hnames, List.append_nil,
        List.reverse_reverse]
      rfl
    · show isAbs (clean q) = _
      rw [isAbs_clean_eq, not_isAbs_of_names hq]
      rfl
  · have hdirne : dir.isEmpty = false := List.isEmpty_eq_false_iff.mpr hdir
    simp only [List.filter, hdirne, hqne, Bool.not_false]
    have habs : isAbs (dir ++ "/" ++ q) = isAbs dir := by
      rw [List.append_assoc, isAbs_append hdir]
    refine ⟨?_, ?_⟩
    · show steps (clean (dir ++ "/" ++ q)) = _
      rw [steps_clean, cleanElements, habs, elements_append, List.foldl_append,
        foldl_climb_proper _ hnames, List.reverse_append, List.reverse_reverse]
      rfl
    · show isAbs (clean (dir ++ "/" ++ q)) = _
      rw [isAbs_clean_eq, habs]

/-- A clean relative path other than a dot, without two dots, is made of names. -/
theorem isName_of_clean (hclean : clean p = p) (habs : isAbs p = false) (hdot : p ≠ ".")
    (hdots : (".." : Text) ∉ elements p) : ∀ e ∈ elements p, IsName e := by
  by_cases hnil : cleanElements p = []
  · exact absurd (hclean.symm.trans (clean_here habs hnil)) hdot
  · have helements : elements p = cleanElements p := by
      rw [← elements_join_cleanElements hnil, ← clean_relative habs hnil, hclean]
    intro e he
    rw [helements] at he hdots
    rcases isName_or_dots he with hname | ⟨-, rfl⟩
    · exact hname
    · exact absurd he hdots

end Path

/-! ## Paths of a file tree -/

namespace Path
open Ascii
variable {p q e dir : Text}

/-- What can stand between two slashes of a path of a file tree. -/
structure IsStep (e : Text) : Prop where
  isName : IsName e
  no_slash : slash ∉ e

theorem isValid_dot : isValid "." = true := by decide +kernel

theorem steps_dot : steps "." = [] := by decide +kernel

theorem isValid_iff (hp : p ≠ ".") : isValid p = true ↔ ∀ e ∈ elements p, IsName e := by
  rw [isValid, Bool.or_eq_true, List.all_eq_true, decide_eq_true_eq]
  exact or_iff_right hp

theorem steps_of_isValid (h : isValid p = true) (hp : p ≠ ".") : steps p = elements p := by
  have habs := not_isAbs_of_isValid h
  have hroot : p ≠ "/" := by
    rintro rfl
    exact absurd habs (by decide +kernel)
  simp [steps, hp, hroot, habs]

theorem isStep_of_mem_steps (h : isValid p = true) (he : e ∈ steps p) : IsStep e := by
  by_cases hp : p = "."
  · rw [hp, steps_dot] at he
    cases he
  · rw [steps_of_isValid h hp] at he
    exact ⟨(isValid_iff hp).mp h e he, Text.not_mem_of_mem_splitOn he⟩

theorem steps_eq_nil_iff (h : isValid p = true) : steps p = [] ↔ p = "." := by
  constructor
  · intro hnil
    by_contra hp
    exact elements_ne_nil p ((steps_of_isValid h hp).symm.trans hnil)
  · rintro rfl
    exact steps_dot

/-- **A path of a file tree is known by its steps.** -/
theorem steps_inj (hp : isValid p = true) (hq : isValid q = true) (h : steps p = steps q) :
    p = q := by
  by_cases hdot : p = "."
  · rw [hdot, steps_dot] at h
    rw [hdot, (steps_eq_nil_iff hq).mp h.symm]
  · have hqdot : q ≠ "." := by
      rintro rfl
      exact hdot ((steps_eq_nil_iff hp).mp (h.trans steps_dot))
    rw [steps_of_isValid hp hdot, steps_of_isValid hq hqdot] at h
    rw [← join_elements p, h, join_elements]

/-- An element of a directory is one step further. -/
theorem join_step (hdir : isValid dir = true) (he : IsStep e) :
    isValid (join [dir, e]) = true ∧ steps (join [dir, e]) = steps dir ++ [e] := by
  have hsingle : elements e = [e] := Text.splitOn_of_not_mem he.no_slash
  have hnames : ∀ x ∈ elements e, IsName x := by
    rw [hsingle]
    exact List.forall_mem_singleton.mpr he.isName
  have hsteps := (steps_join_names dir hnames).1
  rw [clean_of_isValid hdir, hsingle] at hsteps
  refine ⟨?_, hsteps⟩
  rw [Disk.join_of_isValid hdir he.isName he.no_slash, isValid, Bool.or_eq_true]
  split
  · exact .inr (List.all_eq_true.mpr hnames)
  · rename_i hdot
    rw [elements_append, List.all_append, Bool.and_eq_true]
    exact .inr ⟨List.all_eq_true.mpr ((isValid_iff hdot).mp hdir), List.all_eq_true.mpr hnames⟩

/-- **The directory of a path is one step back.** -/
theorem steps_dir (hp : isValid p = true) (hdot : p ≠ ".") :
    isValid (Path.dir p) = true ∧ steps (Path.dir p) = (steps p).dropLast := by
  have hnames := (isValid_iff hdot).mp hp
  obtain ⟨before, e, helements⟩ : ∃ before e, elements p = before ++ [e] :=
    ⟨_, _, (List.dropLast_append_getLast (elements_ne_nil p)).symm⟩
  rw [helements] at hnames
  obtain ⟨hbefore, he⟩ := List.forall_mem_append.mp hnames
  have hupper : upper p before = before := by
    rw [upper, foldl_climb_proper [] (List.all_eq_true.mpr hbefore), List.append_nil,
      List.reverse_reverse]
  have hdir := dir_clean helements (he e List.mem_cons_self)
  rw [clean_of_isValid hp, not_isAbs_of_isValid hp, hupper] at hdir
  rw [hdir, steps_of_isValid hp hdot, helements, List.dropLast_concat]
  by_cases hnil : before = []
  · simp only [hnil, if_true, Bool.false_eq_true, if_false]
    exact ⟨isValid_dot, steps_dot⟩
  · have hjoined : elements (Text.join "/" before) = before :=
      elements_join hnil fun x hx =>
        slash_not_mem_upper helements x (List.mem_append_left _ (hupper.symm ▸ hx))
    have hinner : Text.join "/" before ≠ "." := by
      intro heq
      have hdots : before = ["."] := by
        rw [← hjoined, heq]
        decide +kernel
      rw [hdots] at hbefore
      exact absurd (hbefore "." List.mem_cons_self) (by unfold IsName; decide +kernel)
    have hvalid : isValid (Text.join "/" before) = true := by
      rw [isValid_iff hinner, hjoined]
      exact hbefore
    simp only [hnil, if_false, Bool.false_eq_true]
    exact ⟨hvalid, (steps_of_isValid hvalid hinner).trans hjoined⟩

end Path

namespace Disk
open Ascii
variable {p dir up : Text}

theorem not_below_dot : ¬(up ++ "/" : Text) <+: "." := by
  intro hslashed
  have hslash : slash ∈ (up ++ "/" : Text) := by simp [Path.slash_eq]
  exact absurd (hslashed.subset hslash) (by decide +kernel)

theorem ne_dot_of_isBelow (h : isBelow dir p = true) : p ≠ "." := by
  rintro rfl
  by_cases hdot : dir = "."
  · rw [hdot] at h
    exact absurd h (by decide +kernel)
  · exact not_below_dot ((isBelow_iff hdot).mp h)

/-- What a path of a file tree lies below is a path of the tree. -/
theorem isValid_of_isBelow (hp : Path.isValid p = true) (h : isBelow dir p = true) :
    Path.isValid dir = true := by
  by_cases hdot : dir = "."
  · rw [hdot]
    exact Path.isValid_dot
  · have hinner := ne_dot_of_isBelow h
    obtain ⟨rest, rfl⟩ := (isBelow_iff hdot).mp h
    rw [Path.isValid_iff hdot]
    rw [Path.isValid_iff hinner, Path.elements_append] at hp
    exact fun e he => hp e (List.mem_append_left _ he)

/-- **A path lies below another if the steps of that one come first.** -/
theorem isBelow_iff_steps (hdir : Path.isValid dir = true) (hp : Path.isValid p = true) :
    isBelow dir p = true ↔ ∃ more, more ≠ [] ∧ Path.steps p = Path.steps dir ++ more := by
  by_cases hdot : dir = "."
  · subst hdot
    rw [Path.steps_dot, isBelow, if_pos rfl, bne_iff_ne, Ne, ← Path.steps_eq_nil_iff hp]
    simp
  · rw [Path.steps_of_isValid hdir hdot]
    constructor
    · intro hbelow
      have hinner := ne_dot_of_isBelow hbelow
      obtain ⟨rest, rfl⟩ := (isBelow_iff hdot).mp hbelow
      refine ⟨Path.elements rest, Path.elements_ne_nil rest, ?_⟩
      rw [Path.steps_of_isValid hp hinner, Path.elements_append]
    · rintro ⟨more, hmore, hsteps⟩
      have hinner : p ≠ "." := by
        rintro rfl
        rw [Path.steps_dot] at hsteps
        exact hmore (List.append_eq_nil_iff.mp hsteps.symm).2
      rw [Path.steps_of_isValid hp hinner] at hsteps
      refine (isBelow_iff hdot).mpr ⟨Text.join "/" more, ?_⟩
      rw [← Path.join_elements p, hsteps, Text.join_append _ (Path.elements_ne_nil dir) hmore,
        Path.join_elements]

/-- The directories on the way to a path are those that it lies below, but for the outermost. -/
theorem mem_ancestors_iff (hp : Path.isValid p = true) :
    up ∈ ancestors p ↔ up ≠ "." ∧ isBelow up p = true := by
  rw [mem_ancestors]
  constructor
  · intro hslashed
    have hup : up ≠ "." := by
      rintro rfl
      refine dot_not_prefix hp ?_ hslashed
      rintro rfl
      exact not_below_dot hslashed
    exact ⟨hup, (isBelow_iff hup).mpr hslashed⟩
  · rintro ⟨hup, hbelow⟩
    exact (isBelow_iff hup).mp hbelow

end Disk

end IndentedSass
