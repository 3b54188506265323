import IndentedSass.Proofs.Interleaving
import IndentedSass.Tool.Build

/-!
# Style sheets among sources

Style sheets are written into the tree in which imports are looked for. That makes no difference to
any import. All files that a target can name end in `.sass` (`Library.extension_of_resolve`), while
style sheets end in `.css`. Where a target is looked for depends on the directories of the disk, and
a style sheet that is written into a directory that is there adds none. So the disk keeps its
sources (`Disk.SameSources`), and resolving goes as before (`Library.resolve_of_sameSources`).
-/

namespace IndentedSass

/-! ## Clean paths -/

namespace Path
open Ascii
variable {p s e : Text} {before : List Text}

theorem slash_eq : ("/" : Text) = [slash] := by decide +kernel

/-- The elements of a path below another. -/
theorem elements_append (p q : Text) : elements (p ++ "/" ++ q) = elements p ++ elements q := by
  rw [slash_eq, List.append_assoc, List.singleton_append]
  exact Text.splitOn_append slash p q

theorem join_elements (p : Text) : Text.join "/" (elements p) = p := by
  rw [slash_eq]
  exact Text.join_splitOn slash p

/-- An element that stays as it is in clean paths. -/
def IsName (e : Text) : Prop := (!e.isEmpty && e != ("." : Text) && e != (".." : Text)) = true

/-- Anything longer than two dots is a name. -/
theorem isName_of_length (h : 2 < e.length) : IsName e := by
  have hdot : ("." : Text).length = 1 := by decide +kernel
  have hdots : (".." : Text).length = 2 := by decide +kernel
  unfold IsName
  simp only [Bool.and_eq_true, Bool.not_eq_true', bne_iff_ne, ne_eq, List.isEmpty_eq_false_iff]
  refine ⟨⟨?_, ?_⟩, ?_⟩ <;> rintro rfl
  · cases h
  · omega
  · omega

/-- A name at the end stays when a path is made clean. -/
theorem cleanElements_concat (h : elements p = before ++ [e]) (he : IsName e) :
    cleanElements p = (before.foldl (climb (isAbs p)) []).reverse ++ [e] := by
  rw [cleanElements, h, List.foldl_append, List.foldl_cons, List.foldl_nil, climb_proper he,
    List.reverse_cons]

theorem suffix_join (e : Text) (before : List Text) : e <:+ Text.join "/" (before ++ [e]) := by
  cases before with
  | nil => exact List.suffix_refl e
  | cons s before =>
    rw [Text.join_append _ (List.cons_ne_nil s before) (List.cons_ne_nil e [])]
    exact List.suffix_append _ e

/-- A long enough ending of a file name stays when a path is made clean. -/
theorem suffix_clean (hs : slash ∉ s) (hlong : 2 < s.length) (h : s <:+ p) : s <:+ clean p := by
  obtain ⟨before, e, helements, hsuffix⟩ := Text.exists_last_of_suffix hs h
  have he : IsName e := isName_of_length (hlong.trans_le hsuffix.length_le)
  have hbody : s <:+ Text.join "/" (cleanElements p) := by
    rw [cleanElements_concat helements he]
    exact hsuffix.trans (suffix_join e _)
  rw [clean]
  split
  · exact hbody.trans (List.suffix_cons slash _)
  · split
    · rename_i hempty
      rw [List.isEmpty_iff.mp hempty, List.suffix_nil] at hbody
      rw [hbody] at hlong
      cases hlong
    · exact hbody

theorem suffix_join_parts (hs : slash ∉ s) (hlong : 2 < s.length) (dir : Text) (h : s <:+ p) :
    s <:+ join [dir, p] := by
  have hp : p.isEmpty = false := by
    cases p with
    | nil =>
      rw [List.suffix_nil.mp h] at hlong
      cases hlong
    | cons c p => rfl
  rw [join]
  cases hdir : dir.isEmpty with
  | true =>
    simp only [List.filter, hdir, hp, Bool.not_true, Bool.not_false]
    exact suffix_clean hs hlong h
  | false =>
    simp only [List.filter, hdir, hp, Bool.not_false]
    exact suffix_clean hs hlong (h.trans (List.suffix_append _ p))

end Path

/-! ## The files that targets name -/

namespace Library
open Ascii
variable {lib : Library} {d : Disk} {uri file name p : Text}

theorem slash_not_mem_extension : slash ∉ extension := by decide +kernel

theorem length_extension : 2 < extension.length := by decide +kernel

theorem suffix_fileName (uri : Text) : extension <:+ fileName uri := by
  rw [fileName]
  split
  · rename_i h
    exact List.isSuffixOf_iff_suffix.mp h
  · exact List.suffix_append _ extension

theorem suffix_toDisk (lib : Library) (h : extension <:+ name) : extension <:+ lib.toDisk name := by
  have hgiven : extension <:+ if !lib.workDir.isEmpty && !Path.isAbs name then
      Path.join [lib.workDir, name] else name := by
    split
    · exact Path.suffix_join_parts slash_not_mem_extension length_extension lib.workDir h
    · exact h
  unfold toDisk
  dsimp only
  refine Path.suffix_clean slash_not_mem_extension length_extension ?_
  generalize (if (!lib.workDir.isEmpty && !Path.isAbs name) = true then
    Path.join [lib.workDir, name] else name) = given at hgiven ⊢
  split
  · -- the slash that is dropped is not one of the extension
    rcases List.suffix_cons_iff.mp hgiven with heq | hsuffix
    · exact absurd (heq ▸ List.mem_cons_self) slash_not_mem_extension
    · exact hsuffix
  · exact hgiven

theorem suffix_sibling (h : lib.sibling? (fileName uri) file = some p) : extension <:+ p := by
  rw [sibling?] at h
  split at h
  · cases h
  · cases h
    exact Path.suffix_join_parts slash_not_mem_extension length_extension _ (suffix_fileName uri)

/-- **A resolved target is a source file.** -/
theorem extension_of_resolve (h : lib.resolve d uri file = .ok p) :
    ∃ q, p = lib.fromDisk q ∧ d.isFile q = true ∧ extension <:+ q := by
  unfold resolve at h
  dsimp only at h
  split at h
  · rename_i hfile
    cases h
    exact ⟨_, rfl, hfile, lib.suffix_toDisk (suffix_fileName uri)⟩
  · split at h
    · rename_i q hsibling
      cases h
      obtain ⟨hq, hfile⟩ := Option.filter_eq_some_iff.mp hsibling
      exact ⟨q, rfl, hfile, suffix_sibling hq⟩
    · split at h
      · rename_i q hfound
        cases h
        obtain ⟨root, -, hroot⟩ := List.exists_of_findSome?_eq_some hfound
        obtain ⟨dir, rfl, hfile⟩ := exists_of_find? hroot
        exact ⟨_, rfl, hfile, Path.suffix_join_parts slash_not_mem_extension length_extension dir
          (suffix_fileName uri)⟩
      · cases h

end Library

/-! ## Writing style sheets -/

namespace Disk
open Ascii
variable {d d' d'' : Disk} {place q dir path : Text} {f : File}

/-- The directories on the way to a path are those that the path lies below. -/
theorem mem_ancestors : dir ∈ ancestors path ↔ (dir ++ "/" : Text) <+: path := by
  have hpath := Path.join_elements path
  unfold ancestors
  dsimp only
  rw [List.mem_map]
  constructor
  · rintro ⟨i, hi, rfl⟩
    rw [List.mem_range] at hi
    have hhead : (Path.elements path).take (i + 1) ≠ [] := by
      rw [Ne, List.take_eq_nil_iff]
      rintro (h | h)
      · cases h
      · rw [h] at hi
        cases hi
    have htail : (Path.elements path).drop (i + 1) ≠ [] := by
      rw [Ne, List.drop_eq_nil_iff]
      omega
    refine ⟨Text.join "/" ((Path.elements path).drop (i + 1)), ?_⟩
    rw [← Text.join_append _ hhead htail, List.take_append_drop, hpath]
  · rintro ⟨rest, hrest⟩
    have helements := Path.elements_append dir rest
    rw [hrest] at helements
    have hdir := List.length_pos_iff.mpr (Text.splitOn_ne_nil slash dir)
    have htail := List.length_pos_iff.mpr (Text.splitOn_ne_nil slash rest)
    change 0 < (Path.elements dir).length at hdir
    change 0 < (Path.elements rest).length at htail
    refine ⟨(Path.elements dir).length - 1, ?_, ?_⟩
    · rw [List.mem_range, helements, List.length_append]
      omega
    · rw [helements, Nat.sub_add_cancel hdir, List.take_left, Path.join_elements]

theorem isBelow_iff (hdir : dir ≠ ".") :
    isBelow dir path = true ↔ (dir ++ "/" : Text) <+: path := by
  rw [isBelow, if_neg hdir]
  exact List.isPrefixOf_iff_prefix

theorem isDir_iff : d.isDir dir = true ↔ dir = "." ∨ dir ∈ d.dirs ∨
    ∃ path, (path ∈ d.files.map Prod.fst ∨ path ∈ d.dirs) ∧ isBelow dir path = true := by
  simp only [isDir, Bool.or_eq_true, decide_eq_true_iff, List.contains_iff_mem, List.any_eq_true,
    List.mem_map]
  constructor
  · rintro (((h | h) | ⟨entry, hmem, hbelow⟩) | ⟨path, hmem, hbelow⟩)
    · exact .inl h
    · exact .inr (.inl h)
    · exact .inr (.inr ⟨entry.1, .inl ⟨entry, hmem, rfl⟩, hbelow⟩)
    · exact .inr (.inr ⟨path, .inr hmem, hbelow⟩)
  · rintro (h | h | ⟨path, ⟨entry, hmem, rfl⟩ | hmem, hbelow⟩)
    · exact .inl (.inl (.inl h))
    · exact .inl (.inl (.inr h))
    · exact .inl (.inr ⟨entry, hmem, hbelow⟩)
    · exact .inr ⟨path, hmem, hbelow⟩

/-- Whether a path can name something on a disk. -/
def Names (d : Disk) (path : Text) : Prop :=
  (!Path.isValid path || (d.isNative && path.any (· == 0))) = false

theorem Names.isValid (h : d.Names path) : Path.isValid path = true := by
  simpa using (Bool.or_eq_false_iff.mp h).1

theorem names_of_look (h : d.look path = .dir) : d.Names path := by
  rw [look] at h
  split at h
  · split at h <;> cases h
  · rename_i hguard
    exact eq_false_of_ne_true hguard

theorem look_of_some (hpath : d.Names path) (h : d.file? path = some f) :
    d.look path = .file f := by
  rw [look, hpath, h]
  rfl

theorem look_of_none (hpath : d.Names path) (h : d.file? path = none) :
    d.look path = if d.isDir path then .dir
      else if d.isNative && (ancestors path).any fun dir => (d.file? dir).isSome then .blocked
      else if d.isNative && hasLongName path && (ancestors path).all d.isDir then .tooLong
      else .missing := by
  rw [look, hpath, h]
  rfl

theorem look_eq_dir (hpath : d.Names path) :
    d.look path = .dir ↔ d.file? path = none ∧ d.isDir path = true := by
  cases hfile : d.file? path with
  | some f => simp [look_of_some hpath hfile]
  | none =>
    rw [look_of_none hpath hfile]
    by_cases hdir : d.isDir path = true
    · simp [hdir]
    · simp only [hdir, Bool.false_eq_true, if_false, and_false, iff_false]
      split
      · simp
      · split <;> simp

/-- A place for a file: a path of the tree, in a directory, where no directory is. -/
structure Admits (d : Disk) (place : Text) : Prop where
  names : d.Names place
  inner : place ≠ "."
  inside : ∀ dir, (dir ++ "/" : Text) <+: place → d.isDir dir = true
  free : d.look place ≠ .dir

theorem Admits.not_isDir (h : d.Admits place) (hnew : d.file? place = none) :
    d.isDir place = false := by
  rw [← Bool.not_eq_true]
  intro hdir
  exact h.free ((look_eq_dir h.names).mpr ⟨hnew, hdir⟩)

theorem Admits.isFile (h : d.Admits place) {f : File} (hold : d.file? place = some f) :
    d.isFile place = true :=
  isFile_of_look (look_of_some h.names hold)

/-- Nothing lies below a new place. -/
theorem Admits.not_below (h : d.Admits place) (hnew : d.file? place = none)
    (hpath : path ∈ d.files.map Prod.fst ∨ path ∈ d.dirs) : ¬(place ++ "/" : Text) <+: path := by
  intro hbelow
  have hdir : d.isDir place = true :=
    isDir_iff.mpr (.inr (.inr ⟨path, hpath, (isBelow_iff h.inner).mpr hbelow⟩))
  rw [h.not_isDir hnew] at hdir
  cases hdir

theorem mem_paths_write : path ∈ (d.write place f).files.map Prod.fst ↔
    path ∈ d.files.map Prod.fst ∨ path = place := by
  rw [← isSome_file?_iff, ← isSome_file?_iff, file?_write]
  by_cases hpath : path = place
  · simp [hpath]
  · simp [hpath]

/-- A file in a directory adds no directory. -/
theorem isDir_write (h : d.Admits place) (dir : Text) :
    (d.write place f).isDir dir = d.isDir dir := by
  rw [Bool.eq_iff_iff]
  constructor
  · intro hdir
    rcases isDir_iff.mp hdir with hdot | hmem | ⟨path, hpath, hbelow⟩
    · exact isDir_iff.mpr (.inl hdot)
    · exact isDir_iff.mpr (.inr (.inl hmem))
    · rw [mem_paths_write] at hpath
      rcases hpath with (hpath | rfl) | hpath
      · exact isDir_iff.mpr (.inr (.inr ⟨path, .inl hpath, hbelow⟩))
      · by_cases hdot : dir = "."
        · exact isDir_iff.mpr (.inl hdot)
        · exact h.inside dir ((isBelow_iff hdot).mp hbelow)
      · exact isDir_iff.mpr (.inr (.inr ⟨path, .inr hpath, hbelow⟩))
  · intro hdir
    rcases isDir_iff.mp hdir with hdot | hmem | ⟨path, hpath, hbelow⟩
    · exact isDir_iff.mpr (.inl hdot)
    · exact isDir_iff.mpr (.inr (.inl hmem))
    · refine isDir_iff.mpr (.inr (.inr ⟨path, ?_, hbelow⟩))
      rw [mem_paths_write]
      rcases hpath with hpath | hpath
      · exact .inl (.inl hpath)
      · exact .inr hpath

theorem dot_not_prefix (h : Path.isValid place = true) (hinner : place ≠ ".") :
    ¬("." ++ "/" : Text) <+: place := by
  rintro ⟨rest, rfl⟩
  have hdot : Path.elements ("." : Text) = [("." : Text)] := by decide +kernel
  rw [Path.isValid, Bool.or_eq_true] at h
  rcases h with h | h
  · exact hinner (of_decide_eq_true h)
  · rw [Path.elements_append, hdot, List.cons_append, List.all_cons, Bool.and_eq_true] at h
    simp at h

/-- A place in a directory is below it, and below what that is below. -/
theorem Admits.way (h : d.Admits place) (hdir : (dir ++ "/" : Text) <+: place) :
    dir ∈ d.dirs ∨ ∃ path, (path ∈ d.files.map Prod.fst ∨ path ∈ d.dirs) ∧
      dir ∈ ancestors path := by
  have hdot : dir ≠ "." := by
    rintro rfl
    exact dot_not_prefix h.names.isValid h.inner hdir
  rcases isDir_iff.mp (h.inside dir hdir) with h | h | ⟨path, hpath, hbelow⟩
  · exact absurd h hdot
  · exact .inl h
  · exact .inr ⟨path, hpath, mem_ancestors.mpr ((isBelow_iff hdot).mp hbelow)⟩

theorem mem_dirPaths_write (h : d.Admits place) :
    dir ∈ (d.write place f).dirPaths ↔ dir ∈ d.dirPaths := by
  simp only [mem_dirPaths, mem_paths_write]
  constructor
  · rintro (hdir | ⟨path, (hpath | rfl) | hpath, hmem⟩)
    · exact .inl hdir
    · exact .inr ⟨path, .inl hpath, hmem⟩
    · exact h.way (mem_ancestors.mp hmem)
    · exact .inr ⟨path, .inr hpath, hmem⟩
  · rintro (hdir | ⟨path, hpath | hpath, hmem⟩)
    · exact .inl hdir
    · exact .inr ⟨path, .inl (.inl hpath), hmem⟩
    · exact .inr ⟨path, .inr hpath, hmem⟩

/-- No directory is at a new place or below it. -/
theorem Admits.apart (h : d.Admits place) (hnew : d.file? place = none) (hdir : dir ∈ d.dirPaths) :
    dir ≠ place ∧ ¬(place ++ "/" : Text) <+: dir := by
  rcases mem_dirPaths.mp hdir with hdir | ⟨path, hpath, hmem⟩
  · refine ⟨?_, h.not_below hnew (.inr hdir)⟩
    rintro rfl
    have hisDir := isDir_iff.mpr (.inr (.inl hdir))
    rw [h.not_isDir hnew] at hisDir
    cases hisDir
  · have hbelow := mem_ancestors.mp hmem
    refine ⟨?_, fun hplace => ?_⟩
    · rintro rfl
      exact h.not_below hnew hpath hbelow
    · exact h.not_below hnew hpath ((hplace.trans (List.prefix_append dir _)).trans hbelow)

/-- A walk comes to the same directories after a file has been written to a new place. -/
theorem isReached_write (h : d.Admits place) (hnew : d.file? place = none) (dir : Text)
    (hpath : path ∈ d.dirPaths) : (d.write place f).isReached dir path = d.isReached dir path := by
  obtain ⟨hne, hout⟩ := h.apart hnew hpath
  by_cases hdir : dir = place
  · have hnot : isBelow dir path = false := by
      rw [← Bool.not_eq_true, hdir, isBelow_iff h.inner]
      exact hout
    rw [isReached, isReached, hnot]
    rfl
  · have hother (q : Text) (hq : q ≠ place) :
        ((d.write place f).file? q).isSome = (d.file? q).isSome := by
      rw [file?_write, if_neg hq]
    have hway : (ancestors path).all (fun up => !isBelow dir up ||
        !((d.write place f).file? up).isSome) =
          (ancestors path).all fun up => !isBelow dir up || !(d.file? up).isSome := by
      rw [Bool.eq_iff_iff, List.all_eq_true, List.all_eq_true]
      refine forall_congr' fun up => imp_congr_right fun hup => ?_
      rw [hother up]
      rintro rfl
      exact hout (mem_ancestors.mp hup)
    rw [isReached, isReached, hother dir hdir, hother path hne, hway]

theorem dirsBelow_write (h : d.Admits place) (dir : Text) :
    (d.write place f).dirsBelow dir = d.dirsBelow dir := by
  cases hold : d.file? place with
  | some old => exact ((samePaths_write (h.isFile hold) f).dirsBelow dir).symm
  | none =>
    refine sortWalk_eq_of_perm ?_
    have hpaths : (d.write place f).dirPaths.Perm d.dirPaths :=
      (List.perm_ext_iff_of_nodup (nodup_dirPaths _) (nodup_dirPaths d)).mpr fun _ =>
        mem_dirPaths_write h
    refine (hpaths.filter _).trans (.of_eq (List.filter_congr fun path hpath => ?_))
    exact isReached_write h hold dir hpath

/-- A file in a directory changes nothing elsewhere, but for what would lie below it. -/
theorem look_write (h : d.Admits place) (hq : q ≠ place)
    (hbelow : d.file? place = none → ¬(place ++ "/" : Text) <+: q) :
    (d.write place f).look q = d.look q := by
  cases hold : d.file? place with
  | some old => exact look_write_of_ne (h.isFile hold) hq
  | none =>
    have hother : ∀ path, path ≠ place → (d.write place f).file? path = d.file? path :=
      fun path hpath => (file?_write ..).trans (if_neg hpath)
    have hup : (ancestors q).any (fun dir => ((d.write place f).file? dir).isSome) =
        (ancestors q).any fun dir => (d.file? dir).isSome := by
      rw [Bool.eq_iff_iff, List.any_eq_true, List.any_eq_true]
      refine exists_congr fun dir => and_congr_right fun hdir => ?_
      rw [hother dir]
      rintro rfl
      exact hbelow hold (mem_ancestors.mp hdir)
    have hdirs : (d.write place f).isDir = d.isDir := funext (isDir_write h)
    simp only [look, hother q hq, hdirs, hup]
    rfl

/-! ## Disks with the same sources -/

/-- A disk and a later one have the same directories and the same sources, and what is a file or a
directory stays one. -/
structure SameSources (d d' : Disk) : Prop where
  isNative : d'.isNative = d.isNative
  dirsBelow : ∀ dir, d'.dirsBelow dir = d.dirsBelow dir
  isDir : ∀ dir, d'.isDir dir = d.isDir dir
  sources : ∀ q, Library.extension <:+ q → d'.file? q = d.file? q
  files : ∀ q, d'.file? q = none → d.file? q = none
  dirs : ∀ q, d.look q = .dir → d'.look q = .dir

theorem SameSources.refl (d : Disk) : d.SameSources d where
  isNative := rfl
  dirsBelow _ := rfl
  isDir _ := rfl
  sources _ _ := rfl
  files _ h := h
  dirs _ h := h

theorem SameSources.trans (h : d.SameSources d') (h' : d'.SameSources d'') : d.SameSources d'' where
  isNative := h'.isNative.trans h.isNative
  dirsBelow dir := (h'.dirsBelow dir).trans (h.dirsBelow dir)
  isDir dir := (h'.isDir dir).trans (h.isDir dir)
  sources q hq := (h'.sources q hq).trans (h.sources q hq)
  files q hq := h.files q (h'.files q hq)
  dirs q hq := h'.dirs q (h.dirs q hq)

/-- **Writing a style sheet into a directory keeps the sources.** -/
theorem sameSources_write (h : d.Admits place) (hsheet : Tool.sheetExtension <:+ place) (f : File) :
    d.SameSources (d.write place f) where
  isNative := rfl
  dirsBelow := dirsBelow_write h
  isDir := isDir_write h
  sources q hq := by
    refine (file?_write ..).trans (if_neg ?_)
    rintro rfl
    -- the shorter ending would end the longer one
    have hshort : Tool.sheetExtension.length ≤ Library.extension.length := by decide +kernel
    have hends := List.suffix_of_suffix_length_le hsheet hq hshort
    exact absurd hends (by decide +kernel)
  files q hq := by
    rw [file?_write] at hq
    split at hq
    · cases hq
    · exact hq
  dirs q hq := by
    have hpath := names_of_look hq
    have hpath' : (d.write place f).Names q := hpath
    have hne : q ≠ place := by
      rintro rfl
      exact h.free hq
    obtain ⟨hfile, hdir⟩ := (look_eq_dir hpath).mp hq
    refine (look_eq_dir hpath').mpr ⟨?_, (isDir_write h q).trans hdir⟩
    exact (file?_write ..).trans ((if_neg hne).trans hfile)

namespace SameSources

theorem names (h : d.SameSources d') : d'.Names q ↔ d.Names q := by
  rw [Names, Names, h.isNative]

theorem isFile (h : d.SameSources d') (hq : Library.extension <:+ q) :
    d'.isFile q = d.isFile q := by
  rw [Bool.eq_iff_iff, isFile_iff, isFile_iff, h.isNative, h.sources q hq]

/-- A source file is found as it was. -/
theorem look (h : d.SameSources d') (hq : Library.extension <:+ q) (hfile : d.isFile q = true) :
    d'.look q = d.look q := by
  obtain ⟨f, hlook⟩ := look_of_isFile hfile
  obtain ⟨f', hlook'⟩ := look_of_isFile ((h.isFile hq).trans hfile)
  have hsame : some f' = some f := by
    rw [← file?_of_look hlook', ← file?_of_look hlook, h.sources q hq]
  rw [hlook, hlook', Option.some.inj hsame]

theorem admits (h : d.SameSources d') (hplace : d.Admits place) : d'.Admits place where
  names := h.names.mpr hplace.names
  inner := hplace.inner
  inside dir hdir := (h.isDir dir).trans (hplace.inside dir hdir)
  free hdir := by
    obtain ⟨hfile, hisDir⟩ := (look_eq_dir (h.names.mpr hplace.names)).mp hdir
    rw [h.isDir] at hisDir
    exact hplace.free ((look_eq_dir hplace.names).mpr ⟨h.files _ hfile, hisDir⟩)

end SameSources

end Disk

namespace Library
variable {lib : Library} {d d' : Disk}

/-- **Targets are resolved alike among the same sources.** -/
theorem resolve_of_sameSources (h : d.SameSources d') (lib : Library) (uri file : Text) :
    lib.resolve d' uri file = lib.resolve d uri file := by
  have hname := suffix_fileName uri
  have hgiven := h.isFile (lib.suffix_toDisk hname)
  have hsibling : (lib.sibling? (fileName uri) file).filter d'.isFile =
      (lib.sibling? (fileName uri) file).filter d.isFile := by
    cases hq : lib.sibling? (fileName uri) file with
    | none => rfl
    | some q => rw [Option.filter_some, Option.filter_some, h.isFile (suffix_sibling hq)]
  have hfind (dir : Text) : find? d' dir (fileName uri) = find? d dir (fileName uri) :=
    find?_congr h.dirsBelow (fun dir => h.isFile
      (Path.suffix_join_parts slash_not_mem_extension length_extension dir hname)) dir
  unfold resolve
  simp only [hgiven, hsibling, hfind]

end Library

end IndentedSass
