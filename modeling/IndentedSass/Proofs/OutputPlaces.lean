import IndentedSass.Proofs.Sources

/-!
# Where style sheets go

An output path is clean and ends in a name with the ending of style sheets. If its directory is
there, following the path leads into that directory, and the name is looked for there
(`Tool.enters_output`). So the place of a style sheet is known beforehand, and stays the same as
long as directories stay (`Machine.Enters.locate_eq`). Writing it there keeps the sources
(`Tool.later_write`), and shows at no other output path (`Tool.look_write_of_other`).
-/

namespace IndentedSass

/-! ## Directories of clean paths -/

namespace Path
open Ascii
variable {p e : Text} {before : List Text} {rooted : Bool}

/-- Elements in reverse that are clean: names, and two dots only before all names of a path that
does not start at the root. -/
def Tidy (rooted : Bool) : List Text → Prop
  | [] => True
  | e :: done => (IsName e ∧ Tidy rooted done) ∨
      (rooted = false ∧ e = ".." ∧ ∀ up ∈ done, up = "..")

theorem not_isName_dots : ¬IsName ".." := by
  unfold IsName
  decide +kernel

theorem tidy_dots {done : List Text} (h : ∀ up ∈ done, up = "..") (hrooted : rooted = false) :
    Tidy rooted done := by
  cases done with
  | nil => trivial
  | cons e done =>
    obtain ⟨he, hdone⟩ := List.forall_mem_cons.mp h
    exact .inr ⟨hrooted, he, hdone⟩

theorem tidy_climb {done : List Text} (h : Tidy rooted done) (e : Text) :
    Tidy rooted (climb rooted done e) := by
  unfold climb
  split
  · exact h
  · rename_i hsome
    split
    · rename_i hdots
      cases done with
      | nil =>
        dsimp only
        split
        · trivial
        · rename_i hrooted
          exact .inr ⟨eq_false_of_ne_true hrooted, hdots, fun up hup => by cases hup⟩
      | cons last done =>
        dsimp only
        rcases h with ⟨hname, hdone⟩ | ⟨hrooted, hlast, hdone⟩
        · have hlast : last ≠ ".." := by
            rintro rfl
            exact not_isName_dots hname
          rw [if_neg hlast]
          exact hdone
        · rw [if_pos hlast]
          exact .inr ⟨hrooted, hdots, List.forall_mem_cons.mpr ⟨hlast, hdone⟩⟩
    · rename_i hdots
      refine .inl ⟨?_, h⟩
      unfold IsName
      simp only [Bool.or_eq_true, decide_eq_true_iff, not_or] at hsome
      simp [hsome.1, hsome.2, hdots]

theorem tidy_foldl (es : List Text) {done : List Text} (h : Tidy rooted done) :
    Tidy rooted (es.foldl (climb rooted) done) := by
  induction es generalizing done with
  | nil => exact h
  | cons e es ih => exact ih (tidy_climb h e)

/-- What is clean stays as it is. -/
theorem foldl_climb_tidy {done : List Text} (h : Tidy rooted done) :
    done.reverse.foldl (climb rooted) [] = done := by
  induction done with
  | nil => rfl
  | cons e done ih =>
    rw [List.reverse_cons, List.foldl_append]
    rcases h with ⟨hname, hdone⟩ | ⟨hrooted, rfl, hdone⟩
    · rw [ih hdone]
      exact climb_proper hname
    · rw [ih (tidy_dots hdone hrooted)]
      have hempty : ((".." : Text).isEmpty || decide ((".." : Text) = ("." : Text))) = false := by
        decide +kernel
      cases done with
      | nil => simp [climb, hempty, hrooted]
      | cons last done => simp [climb, hempty, (List.forall_mem_cons.mp hdone).1]

theorem upToSlash_of_name {e : Text} (he : slash ∉ e) (p : Text) :
    upToSlash (p ++ e) = upToSlash p := by
  have hpass : ∀ c ∈ e.reverse, (c != slash) = true := by
    intro c hc
    rw [bne_iff_ne]
    rintro rfl
    exact he (List.mem_reverse.mp hc)
  rw [upToSlash, upToSlash, Text.trimEndWhile, List.reverse_append,
    List.dropWhile_append_of_pos hpass]
  rfl

theorem upToSlash_append {e : Text} (he : slash ∉ e) (p : Text) :
    upToSlash (p ++ slash :: e) = p ++ [slash] := by
  rw [List.append_cons, upToSlash_of_name he, upToSlash, Text.trimEndWhile]
  simp

theorem upToSlash_of_not_mem {e : Text} (he : slash ∉ e) : upToSlash e = [] :=
  upToSlash_of_name he []

/-- The elements in front of a name at the end of a path, made clean. -/
def upper (p : Text) (before : List Text) : List Text :=
  (before.foldl (climb (isAbs p)) []).reverse

theorem slash_not_mem_foldl {es done : List Text} (hes : ∀ e ∈ es, slash ∉ e)
    (hdone : ∀ e ∈ done, slash ∉ e) : ∀ e ∈ es.foldl (climb rooted) done, slash ∉ e := by
  induction es generalizing done with
  | nil => exact hdone
  | cons e es ih =>
    obtain ⟨he, hes⟩ := List.forall_mem_cons.mp hes
    refine ih hes ?_
    have hboth : ∀ x ∈ e :: done, slash ∉ x := List.forall_mem_cons.mpr ⟨he, hdone⟩
    intro x hx
    unfold climb at hx
    split at hx
    · exact hdone x hx
    · split at hx
      · split at hx
        · split at hx
          · exact hboth x hx
          · exact hdone x (List.mem_cons_of_mem _ hx)
        · split at hx
          · cases hx
          · exact hboth x hx
      · exact hboth x hx

theorem IsName.ne_nil (h : IsName e) : e ≠ [] := by
  rintro rfl
  cases h

theorem ne_nil_of_tidy {done : List Text} (h : Tidy rooted done) : ∀ e ∈ done, e ≠ [] := by
  have hdots : (".." : Text) ≠ [] := by decide +kernel
  induction done with
  | nil => exact List.forall_mem_nil _
  | cons e done ih =>
    rcases h with ⟨hname, hdone⟩ | ⟨-, rfl, hdone⟩
    · exact List.forall_mem_cons.mpr ⟨hname.ne_nil, ih hdone⟩
    · exact List.forall_mem_cons.mpr ⟨hdots, fun x hx => hdone x hx ▸ hdots⟩

/-- A path with a first element does not start at the root. -/
theorem isAbs_of_elements {first : Text} {rest : List Text} (h : elements p = first :: rest)
    (hfirst : first ≠ []) : isAbs p = false := by
  cases p with
  | nil => rfl
  | cons c p =>
    by_cases hc : c = slash
    · subst hc
      rw [elements_slash] at h
      exact absurd (List.cons.inj h).1.symm hfirst
    · simp [isAbs, hc]

theorem elements_join {es : List Text} (hne : es ≠ []) (h : ∀ e ∈ es, slash ∉ e) :
    elements (Text.join "/" es) = es := by
  rw [slash_eq]
  exact Text.splitOn_join hne h

theorem tidy_upper (p : Text) (before : List Text) : Tidy (isAbs p) (upper p before).reverse := by
  rw [upper, List.reverse_reverse]
  exact tidy_foldl before trivial

theorem upper_ne_nil (p : Text) (before : List Text) : ∀ x ∈ upper p before, x ≠ [] :=
  fun x hx => ne_nil_of_tidy (tidy_upper p before) x (List.mem_reverse.mpr hx)

theorem foldl_upper (p : Text) (before : List Text) :
    (upper p before).foldl (climb (isAbs p)) [] = (upper p before).reverse := by
  have hfold := foldl_climb_tidy (tidy_upper p before)
  rwa [List.reverse_reverse] at hfold

section Clean
variable (helements : elements p = before ++ [e])
include helements

theorem slash_not_mem_upper : ∀ x ∈ upper p before ++ [e], slash ∉ x := by
  have hall : ∀ x ∈ before ++ [e], slash ∉ x := by
    intro x hx
    rw [← helements] at hx
    exact Text.not_mem_of_mem_splitOn hx
  obtain ⟨hbefore, hlast⟩ := List.forall_mem_append.mp hall
  refine List.forall_mem_append.mpr ⟨fun x hx => ?_, hlast⟩
  exact slash_not_mem_foldl hbefore (fun y hy => by cases hy) x (List.mem_reverse.mp hx)

variable (he : IsName e)
include he

theorem clean_eq : clean p = if isAbs p then slash :: Text.join "/" (upper p before ++ [e])
    else Text.join "/" (upper p before ++ [e]) := by
  have hbody : (Text.join "/" (upper p before ++ [e])).isEmpty = false := by
    rw [List.isEmpty_eq_false_iff]
    intro hempty
    have hsuffix := suffix_join e (upper p before)
    rw [hempty, List.suffix_nil] at hsuffix
    exact he.ne_nil hsuffix
  rw [clean, cleanElements_concat helements he]
  simp only [upper] at hbody ⊢
  rw [hbody]
  simp

theorem elements_clean : elements (clean p) =
    (if isAbs p then [[]] else []) ++ upper p before ++ [e] := by
  have hjoin := elements_join (by simp) (slash_not_mem_upper helements)
  rw [clean_eq helements he]
  cases isAbs p with
  | true =>
    simp only [if_true]
    rw [elements_slash, hjoin]
    rfl
  | false =>
    simp only [Bool.false_eq_true, if_false]
    exact hjoin

theorem isAbs_clean : isAbs (clean p) = isAbs p := by
  have hclean := elements_clean helements he
  cases habs : isAbs p with
  | true =>
    rw [clean_eq helements he, habs]
    rfl
  | false =>
    rw [habs] at hclean
    simp only [Bool.false_eq_true, if_false, List.nil_append] at hclean
    cases hup : upper p before with
    | nil =>
      rw [hup] at hclean
      exact isAbs_of_elements hclean he.ne_nil
    | cons first rest =>
      rw [hup] at hclean
      exact isAbs_of_elements hclean (upper_ne_nil p before first (hup ▸ List.mem_cons_self))

omit he in
/-- The elements of the directory, with an empty one behind the last slash. -/
theorem elements_upper (hup : upper p before ≠ []) :
    elements (Text.join "/" (upper p before) ++ [slash]) = upper p before ++ [[]] := by
  have hslash : ∀ x ∈ upper p before, slash ∉ x :=
    fun x hx => slash_not_mem_upper helements x (List.mem_append_left _ hx)
  have happend := elements_append (Text.join "/" (upper p before)) []
  rw [List.append_nil, elements_join hup hslash] at happend
  rw [← slash_eq]
  exact happend

omit he in
theorem clean_upper_rooted (hup : upper p before ≠ []) (habs : isAbs p = true) :
    clean (slash :: Text.join "/" (upper p before) ++ [slash]) =
      slash :: Text.join "/" (upper p before) := by
  have hfold := foldl_upper p before
  rw [habs] at hfold
  have hcleaned : cleanElements (slash :: Text.join "/" (upper p before) ++ [slash]) =
      upper p before := by
    rw [cleanElements, List.cons_append, elements_slash, elements_upper helements hup,
      show isAbs (slash :: (Text.join "/" (upper p before) ++ [slash])) = true from rfl,
      List.foldl_cons, show climb true [] [] = [] from rfl, List.foldl_append, hfold]
    exact List.reverse_reverse _
  rw [clean, hcleaned]
  rfl

omit he in
theorem clean_upper (hup : upper p before ≠ []) (habs : isAbs p = false) :
    clean (Text.join "/" (upper p before) ++ [slash]) = Text.join "/" (upper p before) := by
  have hfold := foldl_upper p before
  have hdir := elements_upper helements hup
  obtain ⟨first, rest, hfirst⟩ := List.exists_cons_of_ne_nil hup
  have hne : first ≠ [] := upper_ne_nil p before first (hfirst ▸ List.mem_cons_self)
  have hrelative : isAbs (Text.join "/" (upper p before) ++ [slash]) = false := by
    have hdir' : elements (Text.join "/" (upper p before) ++ [slash]) =
        first :: (rest ++ [[]]) := by
      rw [hdir, hfirst]
      rfl
    exact isAbs_of_elements hdir' hne
  have hcleaned : cleanElements (Text.join "/" (upper p before) ++ [slash]) = upper p before := by
    rw [habs] at hfold
    rw [cleanElements, hrelative, hdir, List.foldl_append, hfold]
    exact List.reverse_reverse _
  have hbody : (Text.join "/" (upper p before)).isEmpty = false := by
    rw [hfirst]
    cases rest with
    | nil => exact List.isEmpty_eq_false_iff.mpr hne
    | cons next rest =>
      rw [Text.join_cons _ _ (List.cons_ne_nil next rest)]
      simp [hne]
  rw [clean, hcleaned, hrelative, hbody]
  rfl

/-- The directory of a clean path is made of the other elements. -/
theorem dir_clean : dir (clean p) = if isAbs p then slash :: Text.join "/" (upper p before)
    else if upper p before = [] then "." else Text.join "/" (upper p before) := by
  have hlast : slash ∉ e := slash_not_mem_upper helements e (by simp)
  rw [dir, clean_eq helements he]
  by_cases hup : upper p before = []
  · rw [hup]
    cases isAbs p with
    | true =>
      show clean (upToSlash ([] ++ slash :: e)) = _
      rw [upToSlash_append hlast]
      decide +kernel
    | false =>
      show clean (upToSlash e) = _
      rw [upToSlash_of_not_mem hlast]
      decide +kernel
  · have hjoin : Text.join "/" (upper p before ++ [e]) =
        Text.join "/" (upper p before) ++ slash :: e := by
      rw [Text.join_append _ hup (List.cons_ne_nil e []), slash_eq, List.append_assoc]
      rfl
    rw [if_neg hup, hjoin]
    cases habs : isAbs p with
    | true =>
      simp only [if_true]
      rw [← List.cons_append, upToSlash_append hlast]
      exact clean_upper_rooted helements hup habs
    | false =>
      simp only [Bool.false_eq_true, if_false]
      rw [upToSlash_append hlast]
      exact clean_upper helements hup habs

end Clean

end Path

/-! ## Following output paths -/

namespace Machine
open Ascii
variable {m m' : Machine} {path dir e : Text}

/-- The elements of a path from the root on. -/
def way (m : Machine) (path : Text) : List Text :=
  Path.elements (if Path.isAbs path then path else m.workDir ++ "/" ++ path)

theorem locate_eq (hpath : path ≠ []) : m.locate path =
    if path.any (· == 0) then .error .badPath else (m.way path).foldlM (step m.disk) "." := by
  have hsome : path.isEmpty = false := List.isEmpty_eq_false_iff.mpr hpath
  simp only [locate, hsome, way]
  rfl

/-- A step that can be made starts at a directory. -/
theorem look_of_step {d : Disk} {place place' : Text} (h : step d place e = .ok place') :
    d.look place = .dir := by
  rw [step] at h
  split at h
  · assumption
  · cases h
  · cases h

/-- The path names an element of a directory that is there. -/
structure Enters (m : Machine) (path dir e : Text) : Prop where
  walk : ∃ before, m.way path = before ++ [e] ∧ before.foldlM (step m.disk) "." = .ok dir
  isDir : m.disk.look dir = .dir
  suffix : e <:+ path
  name : Path.IsName e
  slash : slash ∉ e

theorem Enters.locate_eq (h : m.Enters path dir e) : m.locate path =
    if path.any (· == 0) then .error .badPath
    else if 255 < e.length then .error .nameTooLong else .ok (Path.join [dir, e]) := by
  obtain ⟨⟨before, hway, hwalk⟩, hdir, hsuffix, hname, -⟩ := h
  have hpath : path ≠ [] := by
    rintro rfl
    exact hname.ne_nil (List.suffix_nil.mp hsuffix)
  rw [Machine.locate_eq hpath, hway, List.foldlM_append, hwalk]
  unfold Path.IsName at hname
  simp only [Bool.and_eq_true, Bool.not_eq_true', bne_iff_ne, ne_eq] at hname
  have hstep : step m.disk dir e =
      if 255 < e.length then .error .nameTooLong else .ok (Path.join [dir, e]) := by
    rw [step, hdir]
    simp [hname.1.1, hname.1.2, hname.2]
  congr 1
  show (step m.disk dir e >>= fun place => List.foldlM (step m.disk) place []) = _
  rw [hstep]
  split <;> rfl

/-- Directories that stay are walked through as before. -/
theorem foldlM_step_later {d d' : Disk} (hdirs : ∀ q, d.look q = .dir → d'.look q = .dir)
    {es : List Text} {place place' : Text} (h : es.foldlM (step d) place = .ok place') :
    es.foldlM (step d') place = .ok place' := by
  induction es generalizing place with
  | nil => exact h
  | cons e es ih =>
    rw [List.foldlM_cons] at h ⊢
    cases hstep : step d place e with
    | error reason =>
      rw [hstep] at h
      cases h
    | ok next =>
      have hdir := look_of_step hstep
      have hstep' : step d' place e = .ok next := by
        rw [step, hdirs place hdir]
        rw [step, hdir] at hstep
        exact hstep
      rw [hstep] at h
      rw [hstep']
      exact ih h

theorem Enters.later (h : m.Enters path dir e) (hwork : m'.workDir = m.workDir)
    (hdirs : ∀ q, m.disk.look q = .dir → m'.disk.look q = .dir) : m'.Enters path dir e where
  walk := by
    obtain ⟨before, hway, hwalk⟩ := h.walk
    refine ⟨before, ?_, foldlM_step_later hdirs hwalk⟩
    rw [← hway, way, way, hwork]
  isDir := hdirs dir h.isDir
  suffix := h.suffix
  name := h.name
  slash := h.slash

theorem look_eq_ok {look : Disk.Look} (h : m.look path = .ok look) :
    ∃ place, m.locate path = .ok place ∧ m.disk.look place = look := by
  rw [Machine.look] at h
  cases hplace : m.locate path with
  | error reason =>
    rw [hplace] at h
    cases h
  | ok place =>
    rw [hplace] at h
    exact ⟨place, rfl, Except.ok.inj h⟩

theorem walk_of_locate (hpath : path ≠ []) {place : Text} (h : m.locate path = .ok place) :
    (m.way path).foldlM (step m.disk) "." = .ok place := by
  rw [Machine.locate_eq hpath] at h
  split at h
  · cases h
  · exact h

/-- An empty element or a single dot leads nowhere else. -/
theorem walk_of_idle {d : Disk} {before : List Text} {x place : Text}
    (hx : x = [] ∨ x = ".") (h : (before ++ [x]).foldlM (step d) "." = .ok place) :
    before.foldlM (step d) "." = .ok place := by
  rw [List.foldlM_append] at h
  cases hwalk : before.foldlM (step d) "." with
  | error reason =>
    rw [hwalk] at h
    cases h
  | ok place' =>
    rw [hwalk] at h
    have hstep : step d place' x = .ok place := by
      cases hstep : step d place' x with
      | error reason =>
        have : List.foldlM (step d) place' [x] = Except.error reason := by
          rw [List.foldlM_cons, hstep]
          rfl
        cases this.symm.trans h
      | ok next =>
        have : List.foldlM (step d) place' [x] = Except.ok next := by
          rw [List.foldlM_cons, hstep]
          rfl
        exact this.symm.trans h
    have hdir := look_of_step hstep
    have hstay : (x.isEmpty || decide (x = ("." : Text))) = true := by
      rcases hx with rfl | rfl
      · rfl
      · decide +kernel
    rw [step, hdir] at hstep
    dsimp only at hstep
    rw [if_pos hstay] at hstep
    exact hstep

section Clean
variable {p : Text} {before : List Text} (helements : Path.elements p = before ++ [e])
  (he : Path.IsName e)
include helements he

/-- The elements that come before those of a path itself. -/
def origin (m : Machine) (p : Text) : List Text :=
  if Path.isAbs p then [[]] else Path.elements m.workDir

theorem way_clean (m : Machine) :
    m.way (Path.clean p) = m.origin p ++ Path.upper p before ++ [e] := by
  have hclean := Path.elements_clean helements he
  rw [way, origin, Path.isAbs_clean helements he]
  cases hroot : Path.isAbs p with
  | true =>
    rw [hroot] at hclean
    exact hclean
  | false =>
    rw [hroot] at hclean
    simp only [Bool.false_eq_true, if_false, List.nil_append] at hclean ⊢
    rw [Path.elements_append, hclean, List.append_assoc]

theorem way_dir_clean (m : Machine) : m.way (Path.dir (Path.clean p)) = m.origin p ++
    if Path.upper p before = [] then [if Path.isAbs p then [] else "."]
    else Path.upper p before := by
  have hslash : ∀ x ∈ Path.upper p before, Ascii.slash ∉ x :=
    fun x hx => Path.slash_not_mem_upper helements x (List.mem_append_left _ hx)
  rw [Path.dir_clean helements he, way, origin]
  by_cases hup : Path.upper p before = []
  · rw [hup, if_pos rfl]
    cases Path.isAbs p with
    | true => rfl
    | false =>
      have hdot : Path.isAbs ("." : Text) = false := by decide +kernel
      have hdotElements : Path.elements ("." : Text) = [("." : Text)] := by decide +kernel
      simp only [Bool.false_eq_true, if_false, if_true, hdot]
      rw [Path.elements_append, hdotElements]
  · have hjoin := Path.elements_join hup hslash
    simp only [if_neg hup]
    cases Path.isAbs p with
    | true =>
      simp only [if_true]
      rw [show Path.isAbs (Ascii.slash :: Text.join "/" (Path.upper p before)) = true from rfl,
        if_pos rfl, Path.elements_slash, hjoin]
      rfl
    | false =>
      obtain ⟨first, rest, hfirst⟩ := List.exists_cons_of_ne_nil hup
      have hne := Path.upper_ne_nil p before first (hfirst ▸ List.mem_cons_self)
      have hbody := Path.isAbs_of_elements (hjoin.trans hfirst) hne
      simp only [Bool.false_eq_true, if_false, hbody]
      rw [Path.elements_append, hjoin]

/-- **A clean path leads into its directory,** if that is there. -/
theorem enters_clean (hdir : m.look (Path.dir (Path.clean p)) = .ok .dir) :
    ∃ dir, m.Enters (Path.clean p) dir e := by
  obtain ⟨place, hplace, hisDir⟩ := look_eq_ok hdir
  have hnonempty : Path.dir (Path.clean p) ≠ [] := by
    intro hempty
    rw [hempty] at hplace
    cases hplace
  have hdirWalk := walk_of_locate hnonempty hplace
  rw [way_dir_clean helements he] at hdirWalk
  have hwalk : (m.origin p ++ Path.upper p before).foldlM (step m.disk) "." = .ok place := by
    by_cases hup : Path.upper p before = []
    · rw [if_pos hup] at hdirWalk
      rw [hup, List.append_nil]
      refine walk_of_idle ?_ hdirWalk
      cases Path.isAbs p
      · exact .inr rfl
      · exact .inl rfl
    · rw [if_neg hup] at hdirWalk
      exact hdirWalk
  have hlast : Ascii.slash ∉ e := Path.slash_not_mem_upper helements e (by simp)
  refine ⟨place, ⟨_, way_clean helements he m, hwalk⟩, hisDir, ?_, he, hlast⟩
  rw [Path.clean_eq helements he]
  split
  · exact (Path.suffix_join e _).trans (List.suffix_cons _ _)
  · exact Path.suffix_join e _

end Clean

end Machine

/-! ## Places in directories -/

namespace Disk
open Ascii
variable {d : Disk} {dir e q : Text}

/-- The path of an element of a directory. -/
theorem join_of_isValid (hdir : Path.isValid dir = true) (he : Path.IsName e) (hslash : slash ∉ e) :
    Path.join [dir, e] = if dir = "." then e else dir ++ "/" ++ e := by
  have hsingle : Path.elements e = [e] := Text.splitOn_of_not_mem hslash
  have hvalid : Path.isValid e = true := by
    rw [Path.isValid, hsingle, Bool.or_eq_true]
    exact .inr (by rw [List.all_cons, he]; rfl)
  have hdirSome : dir.isEmpty = false := by
    cases dir with
    | nil => cases hdir
    | cons c dir => rfl
  have heSome : e.isEmpty = false := List.isEmpty_eq_false_iff.mpr he.ne_nil
  rw [Path.join]
  simp only [List.filter, hdirSome, heSome, Bool.not_false]
  show Path.clean (dir ++ "/" ++ e) = _
  by_cases hdot : dir = "."
  · have hdotElements : Path.elements ("." : Text) = [("." : Text)] := by decide +kernel
    have hdotAbs : Path.isAbs (("." : Text) ++ "/" ++ e) = false := rfl
    subst hdot
    have hcleaned : Path.cleanElements (("." : Text) ++ "/" ++ e) = [e] := by
      rw [Path.cleanElements, Path.elements_append, hdotElements, hsingle, hdotAbs]
      show (Path.climb false (Path.climb false [] ".") e).reverse = [e]
      rw [show Path.climb false [] "." = [] by decide +kernel, Path.climb_proper he]
      rfl
    rw [if_pos rfl, Path.clean, hcleaned, hdotAbs]
    simp [Text.join, he.ne_nil]
  · rw [if_neg hdot]
    refine Path.clean_of_isValid ?_
    rw [Path.isValid, Bool.or_eq_true] at hdir ⊢
    rcases hdir with hdir | hdir
    · exact absurd (of_decide_eq_true hdir) hdot
    · right
      rw [Path.elements_append, hsingle, List.all_append, hdir, List.all_cons, he]
      rfl

/-- A directory on the way to an element of a directory is that directory or on the way to it. -/
theorem below_of_below_append (hslash : slash ∉ e) (h : (q ++ "/" : Text) <+: dir ++ "/" ++ e) :
    q = dir ∨ (q ++ "/" : Text) <+: dir := by
  have hdir : (dir ++ "/" : Text) <+: dir ++ "/" ++ e := List.prefix_append _ _
  have hshort : (q ++ "/" : Text) <+: dir ++ "/" := by
    rcases List.prefix_or_prefix_of_prefix h hdir with hq | hlong
    · exact hq
    · obtain ⟨rest, hrest⟩ := hlong
      rw [← hrest, List.prefix_append_right_inj] at h
      rcases List.eq_nil_or_concat rest with rfl | ⟨rest, c, rfl⟩
      · rw [List.append_nil] at hrest
        exact ⟨[], (List.append_nil _).trans hrest.symm⟩
      · -- what comes after the directory has no slash, so that it cannot end in one
        rw [List.concat_eq_append] at h hrest
        rw [← List.append_assoc, Path.slash_eq] at hrest
        have hc : [c] = [slash] := (List.append_inj' hrest rfl).2
        have hmem : slash ∈ rest ++ [c] := by
          rw [hc]
          exact List.mem_append_right _ List.mem_cons_self
        exact absurd (h.subset hmem) hslash
  rw [Path.slash_eq] at hshort ⊢
  rcases List.prefix_concat_iff.mp hshort with heq | hprefix
  · exact .inl (List.append_inj' heq rfl).1
  · exact .inr hprefix

/-- What a directory lies below is a directory. -/
theorem isDir_of_below (hdir : d.isDir dir = true) (hdot : dir ≠ ".")
    (hq : (q ++ "/" : Text) <+: dir) : d.isDir q = true := by
  by_cases hqdot : q = "."
  · exact isDir_iff.mpr (.inl hqdot)
  · refine isDir_iff.mpr (.inr (.inr ?_))
    rcases isDir_iff.mp hdir with h | h | ⟨path, hpath, hbelow⟩
    · exact absurd h hdot
    · exact ⟨dir, .inr h, (isBelow_iff hqdot).mpr hq⟩
    · have hpath' := (isBelow_iff hdot).mp hbelow
      refine ⟨path, hpath, (isBelow_iff hqdot).mpr ?_⟩
      exact hq.trans ((List.prefix_append dir _).trans hpath')

/-- **An element of a directory has a place for a file,** unless it is a directory itself. -/
theorem admits_join (hdir : d.look dir = .dir) (hlong : 2 < e.length) (hslash : slash ∉ e)
    (hzero : 0 ∉ e) (hfree : d.look (Path.join [dir, e]) ≠ .dir) :
    d.Admits (Path.join [dir, e]) := by
  have he := Path.isName_of_length hlong
  have hnames := names_of_look hdir
  have hisDir := ((look_eq_dir hnames).mp hdir).2
  have hsingle : Path.elements e = [e] := Text.splitOn_of_not_mem hslash
  have hdots : ("." : Text).length = 1 := by decide +kernel
  have hclear : e.any (· == 0) = false := by
    rw [List.any_eq_false]
    intro c hc hzero'
    exact hzero (eq_of_beq hzero' ▸ hc)
  rw [join_of_isValid hnames.isValid he hslash] at hfree ⊢
  by_cases hdot : dir = "."
  · rw [if_pos hdot] at hfree ⊢
    refine ⟨?_, ?_, ?_, hfree⟩
    · have hvalid : Path.isValid e = true := by
        rw [Path.isValid, hsingle, Bool.or_eq_true]
        exact .inr (by rw [List.all_cons, he]; rfl)
      rw [Names, hvalid, hclear]
      simp
    · rintro rfl
      omega
    · rintro q ⟨rest, rfl⟩
      rw [Path.slash_eq] at hslash
      simp at hslash
  · rw [if_neg hdot] at hfree ⊢
    refine ⟨?_, ?_, fun q hq => ?_, hfree⟩
    · have hvalid := hnames.isValid
      have hslashClear : ("/" : Text).any (· == 0) = false := by decide +kernel
      rw [Names, Bool.or_eq_false_iff] at hnames ⊢
      refine ⟨?_, ?_⟩
      · rw [Path.isValid, Bool.or_eq_true] at hvalid
        rcases hvalid with hvalid | hvalid
        · exact absurd (of_decide_eq_true hvalid) hdot
        · rw [Path.isValid, Path.elements_append, hsingle, List.all_append, hvalid, List.all_cons,
            he]
          simp
      · rw [List.any_append, List.any_append, hclear, hslashClear, Bool.or_false, Bool.or_false]
        exact hnames.2
    · intro heq
      have hlength := congrArg List.length heq
      rw [List.length_append, List.length_append] at hlength
      omega
    · rcases below_of_below_append hslash hq with rfl | hq
      · exact hisDir
      · exact isDir_of_below hisDir hdot hq

end Disk

/-! ## Output paths -/

namespace Tool
open Ascii
variable {m m' : Machine} {src outDir : Text}

theorem slash_not_mem_sheetExtension : slash ∉ sheetExtension := by decide +kernel

theorem length_sheetExtension : 2 < sheetExtension.length := by decide +kernel

theorem outputPath_eq_clean (src outDir : Text) :
    ∃ p, outputPath src outDir = Path.clean p ∧ sheetExtension <:+ p := by
  have hname : sheetExtension <:+ sheetName src := List.suffix_append _ _
  have hsome : (sheetName src).isEmpty = false := by
    rw [List.isEmpty_eq_false_iff]
    intro hempty
    rw [hempty, List.suffix_nil] at hname
    exact absurd hname (by decide +kernel)
  rw [outputPath, Path.join]
  generalize (if outDir.isEmpty then Path.dir src else outDir) = dir
  cases hdir : dir.isEmpty with
  | true =>
    simp only [List.filter, hdir, hsome, Bool.not_true, Bool.not_false]
    exact ⟨_, rfl, hname⟩
  | false =>
    simp only [List.filter, hdir, hsome, Bool.not_false]
    exact ⟨_, rfl, hname.trans (List.suffix_append _ _)⟩

/-- **An output path leads into its directory,** if that is there. -/
theorem enters_output (hdir : m.look (Path.dir (outputPath src outDir)) = .ok .dir) :
    ∃ dir e, m.Enters (outputPath src outDir) dir e ∧ sheetExtension <:+ e := by
  obtain ⟨p, hp, hsuffix⟩ := outputPath_eq_clean src outDir
  obtain ⟨before, e, helements, he⟩ :=
    Text.exists_last_of_suffix slash_not_mem_sheetExtension hsuffix
  have hname := Path.isName_of_length (length_sheetExtension.trans_le he.length_le)
  rw [hp] at hdir ⊢
  obtain ⟨dir, henters⟩ := Machine.enters_clean helements hname hdir
  exact ⟨dir, e, henters, he⟩

end Tool

/-! ## Writing style sheets -/

/-- A later state of a machine: it has the same sources. -/
structure Machine.Later (m m' : Machine) : Prop where
  workDir : m'.workDir = m.workDir
  sources : m.disk.SameSources m'.disk

namespace Machine
variable {m m' m'' : Machine} {path : Text}

theorem Later.refl (m : Machine) : m.Later m := ⟨rfl, .refl _⟩

theorem Later.trans (h : m.Later m') (h' : m'.Later m'') : m.Later m'' :=
  ⟨h'.workDir.trans h.workDir, h.sources.trans h'.sources⟩

/-- A directory is found again. -/
theorem Later.look_dir (h : m.Later m') (hdir : m.look path = .ok .dir) :
    m'.look path = .ok .dir := by
  obtain ⟨place, hplace, hlook⟩ := look_eq_ok hdir
  have hpath : path ≠ [] := by
    rintro rfl
    cases hplace
  have hplace' : m'.locate path = .ok place := by
    have hwalk := foldlM_step_later h.sources.dirs (walk_of_locate hpath hplace)
    rw [locate_eq hpath] at hplace ⊢
    split at hplace
    · cases hplace
    · rename_i hclear
      rw [if_neg hclear, way, h.workDir]
      exact hwalk
  rw [look, hplace']
  exact congrArg Except.ok (h.sources.dirs place hlook)

end Machine

namespace Tool
open Machine
variable {m m' m'' : Machine} {src src' outDir place text : Text} {r : Refused}
  (hdir : m.look (Path.dir (outputPath src outDir)) = .ok .dir)

theorem write_of_error {path : Text} {reason : Refusal} (h : m.locate path = .error reason) :
    write path text m = .error ⟨"open", path, reason⟩ := by
  rw [write, h]

theorem write_of_dir {path : Text} (h : m.locate path = .ok place)
    (hlook : m.disk.look place = .dir) :
    write path text m = .error ⟨"open", path, .isDirectory⟩ := by
  simp only [write, h, hlook]

theorem write_of_free {path : Text} (h : m.locate path = .ok place)
    (hfree : m.disk.look place ≠ .dir) :
    write path text m = .ok (m.changed (m.disk.write place ⟨text, m.clock⟩)) := by
  simp only [write, h]

include hdir

/-- **Output paths lead to the same places all the time.** -/
theorem locate_output (h : m.Later m') :
    m'.locate (outputPath src outDir) = m.locate (outputPath src outDir) := by
  obtain ⟨dir, e, henters, -⟩ := enters_output hdir
  rw [henters.locate_eq, (henters.later h.workDir h.sources.dirs).locate_eq]

theorem place_output (hplace : m.locate (outputPath src outDir) = .ok place) :
    ∃ dir e, m.disk.look dir = .dir ∧ place = Path.join [dir, e] ∧ sheetExtension <:+ e ∧
      Ascii.slash ∉ e ∧ 0 ∉ e := by
  obtain ⟨dir, e, henters, he⟩ := enters_output hdir
  rw [henters.locate_eq] at hplace
  split at hplace
  · cases hplace
  · rename_i hclear
    split at hplace
    · cases hplace
    · cases hplace
      refine ⟨dir, e, henters.isDir, rfl, he, henters.slash, fun hzero => ?_⟩
      exact hclear (List.any_eq_true.mpr ⟨0, henters.suffix.subset hzero, rfl⟩)

theorem admits_output (hplace : m.locate (outputPath src outDir) = .ok place)
    (hfree : m.disk.look place ≠ .dir) : m.disk.Admits place ∧ sheetExtension <:+ place := by
  obtain ⟨dir, e, hlook, rfl, he, hslash, hzero⟩ := place_output hdir hplace
  have hlong := length_sheetExtension.trans_le he.length_le
  refine ⟨Disk.admits_join hlook hlong hslash hzero hfree, ?_⟩
  rw [Disk.join_of_isValid (Disk.names_of_look hlook).isValid (Path.isName_of_length hlong) hslash]
  split
  · exact he
  · exact he.trans (List.suffix_append _ _)

/-- No output path leads below a new file. -/
theorem not_below_output {new : Text} (hplace : m.locate (outputPath src outDir) = .ok place)
    (hadmits : m.disk.Admits new) (hnew : m.disk.file? new = none) :
    ¬(new ++ "/" : Text) <+: place := by
  obtain ⟨dir, e, hlook, rfl, he, hslash, -⟩ := place_output hdir hplace
  have hlong := length_sheetExtension.trans_le he.length_le
  have hnames := Disk.names_of_look hlook
  have hisDir := ((Disk.look_eq_dir hnames).mp hlook).2
  have hnot := hadmits.not_isDir hnew
  rw [Disk.join_of_isValid hnames.isValid (Path.isName_of_length hlong) hslash]
  intro hbelow
  by_cases hdot : dir = "."
  · obtain ⟨rest, hrest⟩ := hbelow
    rw [if_pos hdot] at hrest
    refine hslash ?_
    rw [← hrest, Path.slash_eq]
    simp
  · rw [if_neg hdot] at hbelow
    rcases Disk.below_of_below_append hslash hbelow with rfl | hbelow
    · rw [hisDir] at hnot
      cases hnot
    · rw [Disk.isDir_of_below hisDir hdot hbelow] at hnot
      cases hnot

theorem look_eq_dir_iff (h : m.Later m') (hplace : m.locate (outputPath src outDir) = .ok place) :
    m'.disk.look place = .dir ↔ m.disk.look place = .dir := by
  refine ⟨fun hlook => ?_, h.sources.dirs place⟩
  by_contra hfree
  exact (h.sources.admits (admits_output hdir hplace hfree).1).free hlook

/-- **A style sheet is refused now if it would have been refused at the beginning.** -/
theorem write_eq_error_iff (h : m.Later m') (text text' : Text) :
    write (outputPath src outDir) text m' = .error r ↔
      write (outputPath src outDir) text' m = .error r := by
  have hlocate := locate_output hdir h
  cases hplace : m.locate (outputPath src outDir) with
  | error reason => rw [write_of_error hplace, write_of_error (hlocate.trans hplace)]
  | ok place =>
    have hiff := look_eq_dir_iff hdir h hplace
    by_cases hlook : m.disk.look place = .dir
    · rw [write_of_dir hplace hlook, write_of_dir (hlocate.trans hplace) (hiff.mpr hlook)]
    · have hlook' : m'.disk.look place ≠ .dir := fun h => hlook (hiff.mp h)
      rw [write_of_free hplace hlook, write_of_free (hlocate.trans hplace) hlook']
      constructor
      · intro h
        cases h
      · intro h
        cases h

/-- What it means that a style sheet is written. -/
theorem place_of_write (h : m.Later m') (hwrite : write (outputPath src outDir) text m' = .ok m'') :
    ∃ place, m.locate (outputPath src outDir) = .ok place ∧ m'.disk.Admits place ∧
      sheetExtension <:+ place ∧ m'' = m'.changed (m'.disk.write place ⟨text, m'.clock⟩) := by
  have hlocate := locate_output hdir h
  cases hplace : m.locate (outputPath src outDir) with
  | error reason =>
    rw [write_of_error (hlocate.trans hplace)] at hwrite
    cases hwrite
  | ok place =>
    have hiff := look_eq_dir_iff hdir h hplace
    by_cases hlook : m.disk.look place = .dir
    · rw [write_of_dir (hlocate.trans hplace) (hiff.mpr hlook)] at hwrite
      cases hwrite
    · rw [write_of_free (hlocate.trans hplace) fun h => hlook (hiff.mp h)] at hwrite
      obtain ⟨hadmits, hsheet⟩ := admits_output hdir hplace hlook
      exact ⟨place, rfl, h.sources.admits hadmits, hsheet, (Except.ok.inj hwrite).symm⟩

/-- Writing a style sheet keeps the sources. -/
theorem later_write (h : m.Later m') (hwrite : write (outputPath src outDir) text m' = .ok m'') :
    m.Later m'' := by
  obtain ⟨place, -, hadmits, hsheet, rfl⟩ := place_of_write hdir h hwrite
  exact h.trans ⟨rfl, Disk.sameSources_write hadmits hsheet _⟩

theorem read_write (h : m.Later m') (hwrite : write (outputPath src outDir) text m' = .ok m'') :
    m''.read (outputPath src outDir) = .ok text := by
  have hlocate := locate_output hdir (later_write hdir h hwrite)
  obtain ⟨place, hplace, hadmits, -, rfl⟩ := place_of_write hdir h hwrite
  have hfile : (m'.disk.write place ⟨text, m'.clock⟩).file? place = some ⟨text, m'.clock⟩ :=
    (Disk.file?_write ..).trans (if_pos rfl)
  have hnames : (m'.disk.write place ⟨text, m'.clock⟩).Names place := hadmits.names
  have hlook : (m'.changed (m'.disk.write place ⟨text, m'.clock⟩)).look (outputPath src outDir) =
      .ok (.file ⟨text, m'.clock⟩) := by
    rw [Machine.look, hlocate, hplace]
    exact congrArg Except.ok (Disk.look_of_some hnames hfile)
  rw [Machine.read, hlook]

/-- **A style sheet shows only at its own place.** -/
theorem look_write_of_other (hdir' : m.look (Path.dir (outputPath src' outDir)) = .ok .dir)
    (h : m.Later m') (hwrite : write (outputPath src outDir) text m' = .ok m'')
    (hother : ∀ place, m.locate (outputPath src outDir) = .ok place →
      m.locate (outputPath src' outDir) ≠ .ok place) :
    m''.look (outputPath src' outDir) = m'.look (outputPath src' outDir) := by
  have hlocate := locate_output hdir' h
  have hlocate' := locate_output hdir' (later_write hdir h hwrite)
  obtain ⟨place, hplace, hadmits, -, rfl⟩ := place_of_write hdir h hwrite
  rw [Machine.look, Machine.look, hlocate, hlocate']
  cases hplace' : m.locate (outputPath src' outDir) with
  | error reason => rfl
  | ok q =>
    have hq : q ≠ place := by
      rintro rfl
      exact hother q hplace hplace'
    have hbelow : m'.disk.file? place = none → ¬(place ++ "/" : Text) <+: q := fun hnew =>
      not_below_output (h.look_dir hdir') (hlocate.trans hplace') hadmits hnew
    exact congrArg Except.ok (Disk.look_write hadmits hq hbelow)

end Tool

end IndentedSass
