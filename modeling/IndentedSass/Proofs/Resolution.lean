import IndentedSass.Library
import IndentedSass.Proofs.Pieces
import Mathlib.Data.List.Nodup

/-!
# What resolving looks at

Resolving an import target asks a disk which paths are files and which directories lie below a
directory. Both depend on the set of paths alone, and not on the order in which a disk happens to
list its files, since a walk visits directories in a fixed order. So disks with the same paths
(`Disk.SamePaths`) resolve every target alike: `Library.resolve_eq`.

A resolved target is a path that is given out for a file of the disk: `Library.exists_of_resolve`.
In a library in memory the disk knows it by the same name.
-/

namespace IndentedSass

/-! ## The order of a walk -/

namespace Text
open Ascii

/-- Texts are ordered byte by byte. -/
theorem order_eq_compareLex (s t : Text) : order s t = List.compareLex compare s t := by
  induction s generalizing t with
  | nil => cases t <;> rfl
  | cons a s ih =>
    cases t with
    | nil => rfl
    | cons b t =>
      rw [order, List.compareLex_cons_cons, ih]
      by_cases hlt : a < b
      · simp [compare, compareOfLessAndEq, hlt]
      · by_cases heq : a = b
        · simp [compare, compareOfLessAndEq, heq]
        · have hgt : b < a := by
            rcases UInt8.lt_or_lt_of_ne heq with h | h
            · exact absurd h hlt
            · exact h
          simp [compare, compareOfLessAndEq, hlt, heq, hgt]

end Text

namespace Disk

/-- Paths are ordered element by element, so the laws of an order are those of the library. -/
theorem walkOrder_eq_isLE (as bs : List Text) :
    walkOrder as bs = (List.compareLex (List.compareLex compare) as bs).isLE := by
  induction as generalizing bs with
  | nil => cases bs <;> rfl
  | cons a as ih =>
    cases bs with
    | nil => rfl
    | cons b bs =>
      rw [walkOrder, List.compareLex_cons_cons, Text.order_eq_compareLex]
      cases List.compareLex compare a b with
      | lt => rfl
      | gt => rfl
      | eq => exact ih bs

theorem walkOrder_trans {as bs cs : List Text} (hab : walkOrder as bs = true)
    (hbc : walkOrder bs cs = true) : walkOrder as cs = true := by
  rw [walkOrder_eq_isLE] at hab hbc ⊢
  exact Std.TransCmp.isLE_trans hab hbc

theorem walkOrder_total (as bs : List Text) : (walkOrder as bs || walkOrder bs as) = true := by
  have swap : List.compareLex (List.compareLex compare) bs as =
      (List.compareLex (List.compareLex compare) as bs).swap := Std.OrientedCmp.eq_swap
  rw [walkOrder_eq_isLE, walkOrder_eq_isLE, swap]
  cases List.compareLex (List.compareLex compare) as bs <;> rfl

theorem walkOrder_antisymm {as bs : List Text} (hab : walkOrder as bs = true)
    (hba : walkOrder bs as = true) : as = bs := by
  rw [walkOrder_eq_isLE] at hab hba
  exact Std.LawfulEqCmp.eq_of_compare (Std.OrientedCmp.isLE_antisymm hab hba)

/-- The order of a walk does not depend on the order in which paths are given. -/
theorem sortWalk_eq_of_perm {paths paths' : List Text} (h : paths.Perm paths') :
    sortWalk paths = sortWalk paths' := by
  let le (a b : Text) : Bool := walkOrder (Path.elements a) (Path.elements b)
  have sorted (l : List Text) : (l.mergeSort le).Pairwise fun a b => le a b = true :=
    @List.pairwise_mergeSort _ le (fun _ _ _ hab hbc => walkOrder_trans hab hbc)
      (fun _ _ => walkOrder_total _ _) l
  refine List.Perm.eq_of_pairwise ?_ (sorted paths) (sorted paths')
    ((List.mergeSort_perm paths le).trans (h.trans (List.mergeSort_perm paths' le).symm))
  intro a b _ _ hab hba
  have helements : Path.elements a = Path.elements b := walkOrder_antisymm hab hba
  rw [← Text.join_splitOn Ascii.slash a, ← Text.join_splitOn Ascii.slash b]
  exact congrArg _ helements

/-! ## Disks with the same paths -/

/-- Two disks have files at the same paths, and the same further directories. -/
structure SamePaths (d d' : Disk) : Prop where
  files : ∀ path, path ∈ d.files.map Prod.fst ↔ path ∈ d'.files.map Prod.fst
  dirs : ∀ path, path ∈ d.dirs ↔ path ∈ d'.dirs
  isNative : d.isNative = d'.isNative

variable {d d' : Disk}

/-- There is a file at a path if the disk lists one, whichever entry comes first. -/
theorem isSome_file?_iff (d : Disk) (path : Text) :
    (d.file? path).isSome = true ↔ path ∈ d.files.map Prod.fst := by
  rw [file?, List.lookup_isSome_iff, List.mem_map]
  constructor
  · rintro ⟨entry, hmem, heq⟩
    exact ⟨entry, hmem, (eq_of_beq heq).symm⟩
  · rintro ⟨entry, hmem, rfl⟩
    exact ⟨entry, hmem, beq_self_eq_true _⟩

/-- A path is a file if it can be named on the disk and there is a file at it. -/
theorem isFile_iff (d : Disk) (path : Text) :
    d.isFile path = true ↔ (Path.isValid path && !(d.isNative && path.any (· == 0))) = true ∧
      (d.file? path).isSome = true := by
  rw [isFile, look]
  by_cases hguard : (!Path.isValid path || (d.isNative && path.any (· == 0))) = true
  · have hnot : (Path.isValid path && !(d.isNative && path.any (· == 0))) = false := by
      rw [← Bool.not_eq_true', Bool.not_and, Bool.not_not]
      exact hguard
    rw [if_pos hguard, hnot]
    cases d.isNative <;> simp
  · have hproper : (Path.isValid path && !(d.isNative && path.any (· == 0))) = true := by
      rw [Bool.not_eq_true, ← Bool.not_eq_true', Bool.not_or, Bool.not_not] at hguard
      exact hguard
    rw [if_neg hguard, hproper]
    cases d.file? path with
    | some f => simp
    | none =>
      dsimp only
      split
      · rename_i hlook
        split at hlook
        · cases hlook
        · split at hlook
          · cases hlook
          · split at hlook <;> cases hlook
      · simp

theorem nodup_eraseDups (l : List Text) : l.eraseDups.Nodup := by
  induction hlen : l.length using Nat.strongRecOn generalizing l with
  | ind n ih =>
    cases l with
    | nil => exact List.nodup_nil
    | cons a l =>
      rw [List.eraseDups_cons, List.nodup_cons]
      have hshort := List.length_filter_le (fun b => !b == a) l
      refine ⟨?_, ih _ ?_ _ rfl⟩
      · intro hmem
        have := (List.mem_filter.mp (List.mem_eraseDups.mp hmem)).2
        simp at this
      · rw [List.length_cons] at hlen
        omega

/-- The directories of a disk are those that are listed, and those on the way to something. -/
theorem mem_dirPaths {d : Disk} {dir : Text} :
    dir ∈ d.dirPaths ↔ dir ∈ d.dirs ∨ ∃ path, (path ∈ d.files.map Prod.fst ∨ path ∈ d.dirs) ∧
      dir ∈ ancestors path := by
  rw [dirPaths, List.mem_eraseDups, List.mem_append, List.mem_flatMap]
  simp only [List.mem_append]

theorem nodup_dirPaths (d : Disk) : d.dirPaths.Nodup := nodup_eraseDups _

namespace SamePaths

theorem isSome_file? (h : SamePaths d d') (path : Text) :
    (d.file? path).isSome = (d'.file? path).isSome := by
  rw [Bool.eq_iff_iff, isSome_file?_iff, isSome_file?_iff]
  exact h.files path

/-- The paths decide what is a file. -/
theorem isFile (h : SamePaths d d') (path : Text) : d.isFile path = d'.isFile path := by
  rw [Bool.eq_iff_iff, isFile_iff, isFile_iff, h.isNative, h.isSome_file?]

/-- **The paths decide in which order directories are walked.** Each disk may list its directories
in another order, and both are sorted. -/
theorem dirsBelow (h : SamePaths d d') (dir : Text) : d.dirsBelow dir = d'.dirsBelow dir := by
  refine sortWalk_eq_of_perm ?_
  have hreached : d.isReached dir = d'.isReached dir := by
    funext path
    simp only [isReached, h.isSome_file?]
  rw [hreached]
  refine List.Perm.filter _ ?_
  refine (List.perm_ext_iff_of_nodup (nodup_dirPaths d) (nodup_dirPaths d')).mpr fun path => ?_
  simp only [mem_dirPaths, h.files, h.dirs]

end SamePaths

end Disk

/-! ## Resolving -/

namespace Path
open Ascii

/-- An element that is no dot, no two dots and not empty is one step down. -/
theorem climb_proper {rooted : Bool} {done : List Text} {e : Text}
    (h : (!e.isEmpty && e != ("." : Text) && e != (".." : Text)) = true) :
    climb rooted done e = e :: done := by
  simp only [Bool.and_eq_true, Bool.not_eq_true', bne_iff_ne, ne_eq] at h
  simp [climb, h.1.1, h.1.2, h.2]

theorem foldl_climb_proper {rooted : Bool} {es : List Text} (done : List Text)
    (h : (es.all fun e => !e.isEmpty && e != ("." : Text) && e != (".." : Text)) = true) :
    es.foldl (climb rooted) done = es.reverse ++ done := by
  induction es generalizing done with
  | nil => rfl
  | cons e es ih =>
    rw [List.all_cons, Bool.and_eq_true] at h
    rw [List.foldl_cons, climb_proper h.1, ih _ h.2, List.reverse_cons, List.append_assoc]
    rfl

theorem elements_slash (p : Text) : elements (slash :: p) = [] :: elements p := by
  rw [elements, Text.splitOn, elements]
  cases hpieces : Text.splitOn slash p with
  | nil => exact absurd hpieces (Text.splitOn_ne_nil slash p)
  | cons piece rest => rfl

theorem not_isAbs_of_isValid {p : Text} (h : isValid p = true) : isAbs p = false := by
  cases p with
  | nil => rfl
  | cons c p =>
    by_cases hc : c = slash
    · subst hc
      rw [isValid, Bool.or_eq_true] at h
      rcases h with h | h
      · have hdot : ("." : Text) = [dot] := by decide +kernel
        cases (of_decide_eq_true h).trans hdot
      · rw [elements_slash] at h
        cases h
    · simp [isAbs, hc]

/-- A path of a file tree is clean. -/
theorem clean_of_isValid {p : Text} (h : isValid p = true) : clean p = p := by
  have habs := not_isAbs_of_isValid h
  rw [isValid, Bool.or_eq_true] at h
  rcases h with h | h
  · rw [of_decide_eq_true h]
    decide +kernel
  · have helements : cleanElements p = elements p := by
      rw [cleanElements, foldl_climb_proper [] h, List.append_nil, List.reverse_reverse]
    have hjoin : Text.join "/" (elements p) = p := Text.join_splitOn slash p
    have hne : p.isEmpty = false := by
      cases p with
      | nil => cases h
      | cons c p => rfl
    simp [clean, habs, helements, hjoin, hne]

end Path

namespace Library
variable {lib : Library} {d d' : Disk} {uri file p : Text}

/-- A search comes to the same end on disks with the same directories, if they have files of the
name in the same ones. The induction is on the number of directories below the one to search. -/
theorem find?_congr {name : Text} (hdirs : ∀ dir, d.dirsBelow dir = d'.dirsBelow dir)
    (hfile : ∀ dir, d.isFile (Path.join [dir, name]) = d'.isFile (Path.join [dir, name]))
    (dir : Text) : find? d dir name = find? d' dir name := by
  induction hcount : (d.dirsBelow dir).length using Nat.strongRecOn generalizing dir with
  | ind n ih =>
    subst hcount
    have hinner (inner : Text) :
        (if _h : (d.dirsBelow inner).length < (d.dirsBelow dir).length then find? d inner name
          else none) =
        if _h : (d'.dirsBelow inner).length < (d'.dirsBelow dir).length then find? d' inner name
          else none := by
      simp only [← hdirs]
      split
      · rename_i hfewer
        exact ih _ hfewer inner rfl
      · rfl
    rw [find?, find?, hfile, Disk.dirsIn, Disk.dirsIn, hdirs]
    rw [hdirs] at hinner
    rw [funext hinner]

/-- What a search finds is a file of the name, in some directory. -/
theorem exists_of_find? {dir name : Text} (h : find? d dir name = some p) :
    ∃ inner, p = Path.join [inner, name] ∧ d.isFile p = true := by
  induction hcount : (d.dirsBelow dir).length using Nat.strongRecOn generalizing dir with
  | ind n ih =>
    subst hcount
    rw [find?] at h
    split at h
    · rename_i hfile
      cases h
      exact ⟨dir, rfl, hfile⟩
    · obtain ⟨inner, -, hinner⟩ := List.exists_of_findSome?_eq_some h
      split at hinner
      · rename_i hfewer
        exact ih _ hfewer hinner rfl
      · cases hinner

/-- **Disks with the same paths resolve every target alike.** -/
theorem resolve_eq (h : d.SamePaths d') (lib : Library) (uri file : Text) :
    lib.resolve d uri file = lib.resolve d' uri file := by
  unfold resolve
  simp only [h.isFile, funext h.isFile, find?_congr h.dirsBelow fun _ => h.isFile _]

/-- A library whose paths are those of the disk. -/
structure InMemory (lib : Library) : Prop where
  root : lib.root = []
  workDir : lib.workDir = []

theorem inMemory_new (o : LibraryOptions) : (inMemory o).InMemory := ⟨rfl, rfl⟩

/-- In memory, paths of the library are paths of the disk. -/
theorem InMemory.toDisk_of_isValid (hlib : lib.InMemory) (h : Path.isValid p = true) :
    lib.toDisk p = p := by
  have habs := Path.not_isAbs_of_isValid h
  unfold toDisk
  simp only [hlib.workDir, List.isEmpty_nil, Bool.not_true, Bool.false_and, Bool.false_eq_true,
    if_false]
  split
  · rename_i rest
    cases habs
  · exact Path.clean_of_isValid h

theorem InMemory.toDisk_of_isFile (hlib : lib.InMemory) (h : d.isFile p = true) :
    lib.toDisk p = p := by
  refine hlib.toDisk_of_isValid ?_
  have := ((d.isFile_iff p).mp h).1
  rw [Bool.and_eq_true] at this
  exact this.1

/-- **A resolved target is a file.** -/
theorem exists_of_resolve (h : lib.resolve d uri file = .ok p) :
    ∃ q, p = lib.fromDisk q ∧ d.isFile q = true := by
  unfold resolve at h
  dsimp only at h
  split at h
  · rename_i hfile
    cases h
    exact ⟨_, rfl, hfile⟩
  · split at h
    · rename_i q hsibling
      cases h
      exact ⟨q, rfl, (Option.filter_eq_some_iff.mp hsibling).2⟩
    · split at h
      · rename_i q hfound
        cases h
        obtain ⟨root, -, hroot⟩ := List.exists_of_findSome?_eq_some hfound
        obtain ⟨-, -, hfile⟩ := exists_of_find? hroot
        exact ⟨q, rfl, hfile⟩
      · cases h

/-- In memory, a resolved target is a file by its own name. -/
theorem InMemory.isFile_of_resolve (hlib : lib.InMemory) (h : lib.resolve d uri file = .ok p) :
    d.isFile p = true := by
  obtain ⟨q, rfl, hq⟩ := exists_of_resolve h
  rwa [fromDisk, hlib.root, List.nil_append]

end Library

end IndentedSass
