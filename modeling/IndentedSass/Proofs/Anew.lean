import IndentedSass.Proofs.Conversation
import IndentedSass.Proofs.Dependencies

/-!
# Compiling anew

What a file compiles to is a matter of the disk. `Compiler.compileAnew` says so: it resolves every
target, reads every file, and remembers nothing but the trees of this one compilation, which are
kept on a `Shelf`. A compiler with a new library gives the same (`compileFile_eq_anew`), and so does
compiling anew on another disk with the same paths, as long as the listed files have the same trees
there (`compileAnew_congr`).

A library remembers which file a target was resolved to under a key in which the target and the
importing file are separated by a zero byte. Such a key can be read in two ways if the path of a
file has a zero byte itself. So these statements are about disks on which no path has one
(`Disk.IsClear`).
-/

namespace IndentedSass

/-! ## Remembered targets -/

/-- No file has a path with a zero byte. -/
def Disk.IsClear (d : Disk) : Prop := ∀ path, d.isFile path = true → 0 ∉ path

namespace Library
variable {lib : Library} {d d' : Disk} {uri file p : Text}

/-- A path that is given out for a file of the disk. -/
def Gives (lib : Library) (d : Disk) (p : Text) : Prop :=
  ∃ q, p = lib.fromDisk q ∧ d.isFile q = true

theorem Gives.of_samePaths (h : lib.Gives d p) (hd : d.SamePaths d') : lib.Gives d' p := by
  obtain ⟨q, hp, hq⟩ := h
  exact ⟨q, hp, hd.isFile q ▸ hq⟩

/-- A library that knows the files that it gives out. -/
structure Rooted (lib : Library) : Prop where
  back : ∀ q, Path.isValid q = true → lib.toDisk (lib.fromDisk q) = q
  clear : 0 ∉ lib.root

theorem rooted_inMemory (o : LibraryOptions) : (inMemory o).Rooted :=
  ⟨fun _ hq => (inMemory_new o).toDisk_of_isValid hq, List.not_mem_nil⟩

/-- On a machine, paths are given out from the root, and lead there again. -/
theorem rooted_onMachine (o : LibraryOptions) (workDir : Text) : (onMachine o workDir).Rooted := by
  have hslash : ("/" : Text) = [Ascii.slash] := by decide +kernel
  refine ⟨fun q hq => ?_, ?_⟩
  · have habs : Path.isAbs (Ascii.slash :: q) = true := rfl
    unfold toDisk
    rw [show (onMachine o workDir).fromDisk q = ("/" : Text) ++ q from rfl, hslash,
      List.singleton_append]
    simp only [habs, Bool.not_true, Bool.and_false, Bool.false_eq_true, if_false]
    exact Path.clean_of_isValid hq
  · show 0 ∉ ("/" : Text)
    decide +kernel

theorem Rooted.choosing (h : lib.Rooted) (choices : Choices) : (lib.choosing choices).Rooted :=
  ⟨fun q hq => h.back q hq, h.clear⟩

/-- A path that is given out leads to the file that it was given out for. -/
theorem Rooted.isFile_toDisk (hlib : lib.Rooted) (h : lib.Gives d p) :
    d.isFile (lib.toDisk p) = true := by
  obtain ⟨q, rfl, hq⟩ := h
  have hvalid := ((d.isFile_iff q).mp hq).1
  rw [Bool.and_eq_true] at hvalid
  rw [hlib.back q hvalid.1]
  exact hq

/-- No path that is given out has a zero byte, if no file of the disk has one. -/
theorem Rooted.not_mem (hlib : lib.Rooted) (hd : d.IsClear) (h : lib.Gives d p) : 0 ∉ p := by
  obtain ⟨q, rfl, hq⟩ := h
  intro hmem
  rcases List.mem_append.mp hmem with hmem | hmem
  · exact hlib.clear hmem
  · exact hd q hq hmem

/-- The zero byte between them tells the target from the file. -/
theorem resolveKey_inj {uri' file' : Text} (hfile : 0 ∉ file) (hfile' : 0 ∉ file')
    (h : resolveKey uri file = resolveKey uri' file') : uri = uri' ∧ file = file' := by
  -- whichever text is longer, its rest begins with the zero and holds another one
  rcases List.append_eq_append_iff.mp h with ⟨rest, rfl, hrest⟩ | ⟨rest, rfl, hrest⟩ <;>
    rcases rest with _ | ⟨zero, rest⟩
  · exact ⟨(List.append_nil _).symm, (List.cons.inj hrest).2⟩
  · refine absurd ?_ hfile
    rw [(List.cons.inj hrest).2]
    exact List.mem_append_right _ List.mem_cons_self
  · exact ⟨List.append_nil _, (List.cons.inj hrest).2.symm⟩
  · refine absurd ?_ hfile'
    rw [(List.cons.inj hrest).2]
    exact List.mem_append_right _ List.mem_cons_self

/-- Every remembered target is resolved as it would be now. -/
def Recalls (lib : Library) (d : Disk) : Prop :=
  ∀ entry ∈ lib.resolved.items, ∀ uri file, 0 ∉ file → resolveKey uri file = entry.1 →
    lib.resolve d uri file = .ok entry.2

/-- What is remembered stays right as long as no path comes or goes. -/
theorem Recalls.of_samePaths (h : lib.Recalls d) (hd : d.SamePaths d') : lib.Recalls d' := by
  intro entry hentry uri file hfile hkey
  rw [← resolve_eq hd]
  exact h entry hentry uri file hfile hkey

/-- **A remembered target makes no difference.** -/
theorem Recalls.resolveCached (h : lib.Recalls d) (uri : Text) (hfile : 0 ∉ file) :
    ∃ resolved, lib.resolveCached d uri file =
        (lib.resolve d uri file, lib.withResolved resolved) ∧
      (lib.withResolved resolved).Recalls d := by
  have hends := lib.resolved.ends (resolveKey uri file) fun _ => lib.resolve d uri file
  unfold Library.resolveCached
  generalize (lib.resolved.getOrCompute (resolveKey uri file) fun _ => lib.resolve d uri file) =
    answer at hends
  cases hends with
  | stored hget =>
    rw [h _ (Recent.mem_of_lookup hget) uri file hfile rfl]
    exact ⟨_, rfl, h⟩
  | failed _ hq =>
    rw [hq]
    exact ⟨_, rfl, h⟩
  | computed _ hq =>
    rw [hq]
    refine ⟨_, rfl, fun entry hentry uri' file' hfile' hkey => ?_⟩
    rcases Bounded.mem_add hentry with rfl | hold
    · obtain ⟨rfl, rfl⟩ := resolveKey_inj hfile' hfile hkey
      exact hq
    · exact h entry hold uri' file' hfile' hkey

end Library

/-! ## The trees of one compilation -/

/-- The trees that a compilation has loaded, and the files in order. -/
structure Shelf where
  pending : List (Text × Source)
  files : List Text

namespace Shelf
variable {way : PropertySyntax} {lib : Library} {d d' : Disk} {s : Shelf} {p : Text}

def empty : Shelf := ⟨[], []⟩

/-- Lists a file, and keeps its tree if it has one. -/
def note (s : Shelf) (p : Text) : Except Fault Source → Shelf
  | .ok source => ⟨s.pending ++ [(p, source)], s.files ++ [p]⟩
  | .error _ => ⟨s.pending, s.files ++ [p]⟩

/-- The tree of a file: one loaded before, or the one that it has now. -/
def load (s : Shelf) (tree : Text → Except Fault Source) (p : Text) :
    Except Fault Source × Shelf :=
  match s.pending.lookup p with
  | some source => (.ok source, s)
  | none => (tree p, s.note p (tree p))

theorem files_note (s : Shelf) (p : Text) (tree : Except Fault Source) :
    (s.note p tree).files = s.files ++ [p] := by
  cases tree <;> rfl

/-- A file that is on the shelf is taken from there. -/
theorem load_of_some {tree : Text → Except Fault Source} {source : Source}
    (h : s.pending.lookup p = some source) : s.load tree p = (.ok source, s) := by
  rw [load, h]

theorem load_of_none {tree : Text → Except Fault Source} (h : s.pending.lookup p = none) :
    s.load tree p = (tree p, s.note p (tree p)) := by
  rw [load, h]

/-- What is on the shelf is right about a disk. -/
structure Right (way : PropertySyntax) (lib : Library) (d : Disk) (s : Shelf) : Prop where
  pending : ∀ p source, (p, source) ∈ s.pending → p ∈ s.files ∧ lib.treeAt way d p = .ok source
  files : ∀ p ∈ s.files, lib.Gives d p

theorem right_empty : empty.Right way lib d := ⟨nofun, nofun⟩

/-- A file that is noted comes from the disk. -/
theorem Right.note (h : s.Right way lib d) (hp : lib.Gives d p) :
    (s.note p (lib.treeAt way d p)).Right way lib d := by
  have files : ∀ q ∈ s.files ++ [p], lib.Gives d q := by
    intro q hq
    rcases List.mem_append.mp hq with hq | hq
    · exact h.files q hq
    · rw [List.mem_singleton.mp hq]
      exact hp
  have old : ∀ q source, (q, source) ∈ s.pending →
      q ∈ s.files ++ [p] ∧ lib.treeAt way d q = .ok source := by
    intro q source hq
    obtain ⟨hmem, htree⟩ := h.pending q source hq
    exact ⟨List.mem_append_left _ hmem, htree⟩
  cases htree : lib.treeAt way d p with
  | error f => exact ⟨old, files⟩
  | ok source =>
    refine ⟨fun q tree hq => ?_, files⟩
    rcases List.mem_append.mp hq with hq | hq
    · exact old q tree hq
    · cases List.mem_singleton.mp hq
      exact ⟨List.mem_append_right _ List.mem_cons_self, htree⟩

theorem right_first {source : Source} (hp : lib.Gives d p)
    (htree : lib.treeAt way d p = .ok source) : Right way lib d ⟨[(p, source)], [p]⟩ := by
  have hnote := (@right_empty way lib d).note hp
  rwa [htree] at hnote

/-- **Loading a file keeps the shelf right.** -/
theorem Right.load (h : s.Right way lib d) (hp : lib.Gives d p) :
    (s.load (lib.treeAt way d) p).2.Right way lib d := by
  cases hpending : s.pending.lookup p with
  | some source =>
    rw [load_of_some hpending]
    exact h
  | none =>
    rw [load_of_none hpending]
    exact h.note hp

/-- Files are listed in the order in which they are loaded, and none is ever taken off the list. -/
theorem files_load (s : Shelf) (tree : Text → Except Fault Source) (p : Text) :
    s.files <+: (s.load tree p).2.files := by
  rw [load]
  split
  · exact List.prefix_refl _
  · rw [files_note]
    exact List.prefix_append _ _

/-- What is loaded is the same where the listed files have the same trees. -/
theorem load_congr {tree tree' : Text → Except Fault Source}
    (h : ∀ q ∈ (s.load tree p).2.files, tree q = tree' q) : s.load tree' p = s.load tree p := by
  cases hpending : s.pending.lookup p with
  | some source => rw [load_of_some hpending, load_of_some hpending]
  | none =>
    rw [load_of_none hpending, files_note] at h
    rw [load_of_none hpending, load_of_none hpending,
      h p (List.mem_append_right _ List.mem_cons_self)]

end Shelf

/-! ## Compiling anew -/

namespace Compiler
variable {c : Compiler} {lib : Library} {d d' : Disk} {s : Shelf}

/-- The importer that reads every file when it is first asked for. -/
def importAnew (c : Compiler) (lib : Library) (d : Disk) : Importer Shelf where
  load uri file s :=
    match lib.resolve d uri file with
    | .error fault => (.error (.tagged ("import " ++ uri) fault), s)
    | .ok p =>
      let (tree, s) := s.load (lib.treeAt c.propertySyntax d) p
      (tree.map fun source => (source, p), s)

/-- The expansion of a tree, up to the files that it imports. -/
def script (c : Compiler) (p : Text) (source : Source) : Expand.Run Expand.Transcript (List Css) :=
  Expand.source c.settings.scripted c.fuel p source

/-- The expansion of a tree with every imported file read anew. -/
def expandAnew (c : Compiler) (lib : Library) (d : Disk) (p : Text) (source : Source) :
    Expand.Run Shelf (List Css) :=
  Expand.source ⟨c.options.palette, c.options.vendorProperties, some (c.importAnew lib d)⟩ c.fuel p
    source

/-- A file compiled with every file read anew. -/
def compileAnew (c : Compiler) (lib : Library) (d : Disk) (path : Text) : Compiled :=
  match lib.resolve d path [] with
  | .error fault => ⟨.error (.fault fault), []⟩
  | .ok p =>
    match Shelf.empty.load (lib.treeAt c.propertySyntax d) p with
    | (.error fault, s) => ⟨.error (.fault fault), s.files⟩
    | (.ok source, s) =>
      let (css, s) := (c.expandAnew lib d p source).run s
      ⟨css.map c.style.render, s.files⟩

theorem expandAnew_converses (c : Compiler) (lib : Library) (d : Disk) (p : Text)
    (source : Source) :
    Expand.Converses (c.importAnew lib d) (c.expandAnew lib d p source) (c.script p source) :=
  Expand.source_converses rfl c.fuel p source

theorem source_converses (c : Compiler) (p : Text) (source : Source) :
    Expand.Converses c.importer (Expand.source c.settings c.fuel p source) (c.script p source) :=
  Expand.source_converses rfl c.fuel p source

/-! ### Importing -/

theorem importAnew_of_error {uri file : Text} {fault : Fault}
    (h : lib.resolve d uri file = .error fault) (s : Shelf) :
    (c.importAnew lib d).load uri file s = (.error (.tagged ("import " ++ uri) fault), s) := by
  simp only [importAnew, h]

theorem importAnew_of_ok {uri file p : Text} (h : lib.resolve d uri file = .ok p) (s : Shelf) :
    (c.importAnew lib d).load uri file s =
      ((s.load (lib.treeAt c.propertySyntax d) p).1.map fun source => (source, p),
        (s.load (lib.treeAt c.propertySyntax d) p).2) := by
  simp only [importAnew, h]

/-- An import keeps the shelf right, and its answer names a file of the disk. -/
theorem right_importAnew (hs : s.Right c.propertySyntax lib d) (uri file : Text) :
    ((c.importAnew lib d).load uri file s).2.Right c.propertySyntax lib d ∧
      ∀ source path, ((c.importAnew lib d).load uri file s).1 = .ok (source, path) →
        lib.Gives d path := by
  cases hresolve : lib.resolve d uri file with
  | error fault =>
    rw [importAnew_of_error hresolve]
    exact ⟨hs, fun _ _ h => by cases h⟩
  | ok p =>
    have hp : lib.Gives d p := Library.exists_of_resolve hresolve
    rw [importAnew_of_ok hresolve]
    refine ⟨hs.load hp, fun source path h => ?_⟩
    rcases htree : (s.load (lib.treeAt c.propertySyntax d) p).1 with f | source'
    · rw [htree] at h
      cases h
    · rw [htree] at h
      cases h
      exact hp

theorem files_importAnew (c : Compiler) (lib : Library) (d : Disk) (uri file : Text) (s : Shelf) :
    s.files <+: ((c.importAnew lib d).load uri file s).2.files := by
  cases hresolve : lib.resolve d uri file with
  | error fault =>
    have hsame := congrArg (fun x => x.2.files) (importAnew_of_error (c := c) hresolve s)
    exact hsame ▸ List.prefix_refl _
  | ok p =>
    rw [importAnew_of_ok hresolve]
    exact s.files_load _ p

/-- An import has the same answer on two disks with the same paths, if the files that it loads have
the same trees. -/
theorem importAnew_congr {uri file : Text} (hd : d.SamePaths d')
    (h : ∀ p ∈ ((c.importAnew lib d).load uri file s).2.files,
      lib.treeAt c.propertySyntax d p = lib.treeAt c.propertySyntax d' p) :
    (c.importAnew lib d').load uri file s = (c.importAnew lib d).load uri file s := by
  cases hresolve : lib.resolve d uri file with
  | error fault =>
    rw [importAnew_of_error hresolve, importAnew_of_error (Library.resolve_eq hd .. ▸ hresolve)]
  | ok p =>
    rw [importAnew_of_ok hresolve] at h
    rw [importAnew_of_ok hresolve, importAnew_of_ok (Library.resolve_eq hd .. ▸ hresolve),
      Shelf.load_congr h]

/-! ### Conversations -/

section Conversations
variable {α : Type} {view : List Expand.Answer → Expand.Outlook α}
  {x y : List Expand.Answer × Shelf}

/-- What is heard anew is right, and names files of the disk. -/
theorem right_conversation (h : Expand.Conversation view (c.importAnew lib d) x y)
    (hx : x.2.Right c.propertySyntax lib d)
    (hnames : ∀ source path, .ok (source, path) ∈ x.1 → lib.Gives d path) :
    y.2.Right c.propertySyntax lib d ∧
      ∀ source path, .ok (source, path) ∈ y.1 → lib.Gives d path := by
  induction h with
  | refl => exact ⟨hx, hnames⟩
  | tail _ hlast ih =>
    obtain @⟨answers, uri, file, s, s', answer, -, load⟩ := hlast
    obtain ⟨hright, hnamed⟩ := ih
    obtain ⟨hright', hnamed'⟩ := right_importAnew hright uri file
    rw [load] at hright' hnamed'
    refine ⟨hright', fun source path hmem => ?_⟩
    rcases List.mem_append.mp hmem with hmem | hmem
    · exact hnamed source path hmem
    · exact hnamed' source path (List.mem_singleton.mp hmem).symm

/-- A conversation only adds files. -/
theorem files_conversation (h : Expand.Conversation view (c.importAnew lib d) x y) :
    x.2.files <+: y.2.files := by
  induction h with
  | refl => exact List.prefix_refl _
  | tail _ hlast ih =>
    obtain @⟨answers, uri, file, s, s', answer, -, load⟩ := hlast
    have hfiles := files_importAnew c lib d uri file s
    rw [load] at hfiles
    exact ih.trans hfiles

/-- A conversation goes the same way on a disk on which the listed files have the same trees. -/
theorem conversation_congr (hd : d.SamePaths d')
    (h : Expand.Conversation view (c.importAnew lib d) x y)
    (hagree : ∀ p ∈ y.2.files,
      lib.treeAt c.propertySyntax d p = lib.treeAt c.propertySyntax d' p) :
    Expand.Conversation view (c.importAnew lib d') x y := by
  induction h with
  | refl => exact .refl
  | tail _ hlast ih =>
    obtain @⟨answers, uri, file, s, s', answer, asks, load⟩ := hlast
    have hfiles := files_importAnew c lib d uri file s
    have hsame : (c.importAnew lib d').load uri file s = (c.importAnew lib d).load uri file s :=
      importAnew_congr hd (by rw [load]; exact hagree)
    rw [load] at hfiles hsame
    exact (ih fun p hp => hagree p (hfiles.subset hp)).tail (.mk asks hsame)

end Conversations

/-! ### Compiling -/

section Compiling
variable {path p : Text} {source : Source}

/-- The compilation of a file in terms of the conversation that it has. -/
theorem compileAnew_of_conversation (hresolve : lib.resolve d path [] = .ok p)
    (htree : lib.treeAt c.propertySyntax d p = .ok source)
    {answers : List Expand.Answer} {result : Except Expand.Stop (List Css)}
    (h : Expand.Conversation (Expand.outlook (c.script p source)) (c.importAnew lib d)
      ([], ⟨[(p, source)], [p]⟩) (answers, s))
    (hends : Expand.outlook (c.script p source) answers = .ends result) :
    c.compileAnew lib d path = ⟨result.map c.style.render, s.files⟩ := by
  have hload : Shelf.empty.load (lib.treeAt c.propertySyntax d) p =
      (.ok source, ⟨[(p, source)], [p]⟩) := by
    rw [Shelf.load_of_none rfl, htree]
    rfl
  have hrun := (c.expandAnew_converses lib d p source).run_eq h hends
  unfold compileAnew
  rw [hresolve]
  simp only [hload, hrun]

theorem compileAnew_of_error {fault : Fault} (hresolve : lib.resolve d path [] = .ok p)
    (htree : lib.treeAt c.propertySyntax d p = .error fault) :
    c.compileAnew lib d path = ⟨.error (.fault fault), [p]⟩ := by
  have hload : Shelf.empty.load (lib.treeAt c.propertySyntax d) p = (.error fault, ⟨[], [p]⟩) := by
    rw [Shelf.load_of_none rfl, htree]
    rfl
  unfold compileAnew
  rw [hresolve]
  simp only [hload]

theorem compileAnew_of_unresolved {fault : Fault}
    (hresolve : lib.resolve d path [] = .error fault) :
    c.compileAnew lib d path = ⟨.error (.fault fault), []⟩ := by
  unfold compileAnew
  rw [hresolve]

/-- **The listed files are all that matters.** -/
theorem compileAnew_congr (hd : d.SamePaths d')
    (hagree : ∀ q ∈ (c.compileAnew lib d path).files,
      lib.treeAt c.propertySyntax d q = lib.treeAt c.propertySyntax d' q) :
    c.compileAnew lib d' path = c.compileAnew lib d path := by
  have hresolve' := (Library.resolve_eq hd lib path []).symm
  cases hresolve : lib.resolve d path [] with
  | error fault =>
    rw [compileAnew_of_unresolved hresolve, compileAnew_of_unresolved (hresolve'.trans hresolve)]
  | ok p =>
    rw [hresolve] at hresolve'
    cases htree : lib.treeAt c.propertySyntax d p with
    | error fault =>
      rw [compileAnew_of_error hresolve htree] at hagree ⊢
      rw [hagree p List.mem_cons_self] at htree
      exact compileAnew_of_error hresolve' htree
    | ok source =>
      obtain ⟨answers, s, result, hconversation, hends⟩ :=
        (c.expandAnew_converses lib d p source).exists_end ⟨[(p, source)], [p]⟩
      rw [compileAnew_of_conversation hresolve htree hconversation hends] at hagree ⊢
      rw [hagree p ((files_conversation hconversation).subset List.mem_cons_self)] at htree
      exact compileAnew_of_conversation hresolve' htree (conversation_congr hd hconversation hagree)
        hends

/-- Files of the disk are listed. -/
theorem gives_of_compileAnew (c : Compiler) (lib : Library) (d : Disk) (path : Text) :
    ∀ q ∈ (c.compileAnew lib d path).files, lib.Gives d q := by
  cases hresolve : lib.resolve d path [] with
  | error fault =>
    rw [compileAnew_of_unresolved hresolve]
    exact List.forall_mem_nil _
  | ok p =>
    have hp : lib.Gives d p := Library.exists_of_resolve hresolve
    cases htree : lib.treeAt c.propertySyntax d p with
    | error fault =>
      rw [compileAnew_of_error hresolve htree]
      exact List.forall_mem_singleton.mpr hp
    | ok source =>
      obtain ⟨answers, s, result, hconversation, hends⟩ :=
        (c.expandAnew_converses lib d p source).exists_end ⟨[(p, source)], [p]⟩
      rw [compileAnew_of_conversation hresolve htree hconversation hends]
      exact (right_conversation hconversation (Shelf.right_first hp htree) nofun).1.files

end Compiling

/-! ## New libraries -/

section NewLibraries
variable {l : Loader} {p : Text}

/-- A loader over a disk without remembered trees, whose own trees are those on the shelf. -/
inductive Beside (lib : Library) (d : Disk) : Loader → Shelf → Prop
  | mk {resolved : Memo Text Text} {reads files : List Text} {pending : List (Text × Source)}
    (recalls : (lib.withResolved resolved).Recalls d) :
    Beside lib d ⟨⟨d, lib.withResolved resolved, reads⟩, pending, files⟩ ⟨pending, files⟩

/-- A compiler that remembers no trees loads a file as the shelf does. -/
theorem load_beside (htrees : lib.trees.items = []) (h : Beside lib d l s) (p : Text) :
    (c.load p l).1 = (s.load (lib.treeAt c.propertySyntax d) p).1 ∧
      Beside lib d (c.load p l).2 (s.load (lib.treeAt c.propertySyntax d) p).2 := by
  obtain @⟨resolved, reads, files, pending, recalls⟩ := h
  cases hpending : pending.lookup p with
  | some source =>
    rw [Shelf.load_of_some hpending, load, hpending]
    exact ⟨rfl, .mk recalls⟩
  | none =>
    rw [Shelf.load_of_none hpending, load_cold htrees hpending]
    cases lib.treeAt c.propertySyntax d p with
    | error fault => exact ⟨rfl, .mk recalls⟩
    | ok source => exact ⟨rfl, .mk recalls⟩

/-- Resolving beside a shelf. -/
theorem resolve_beside (h : Beside lib d l s) (uri : Text) {file : Text} (hfile : 0 ∉ file) :
    (l.world.resolve uri file).1 = lib.resolve d uri file ∧
      Beside lib d { l with world := (l.world.resolve uri file).2 } s := by
  obtain @⟨resolved, reads, files, pending, recalls⟩ := h
  obtain ⟨resolved', hresolve, recalls'⟩ := recalls.resolveCached uri hfile
  simp only [World.resolve, hresolve]
  exact ⟨rfl, .mk recalls'⟩

theorem importer_beside (hlib : lib.Rooted) (hclear : d.IsClear) (htrees : lib.trees.items = [])
    (uri file : Text) (hfile : 0 ∉ file) (l : Loader) (s : Shelf) (h : Beside lib d l s) :
    (c.importer.load uri file l).1 = ((c.importAnew lib d).load uri file s).1 ∧
      Beside lib d (c.importer.load uri file l).2 ((c.importAnew lib d).load uri file s).2 ∧
      ∀ source path, ((c.importAnew lib d).load uri file s).1 = .ok (source, path) → 0 ∉ path := by
  obtain ⟨hresult, hbeside⟩ := resolve_beside h uri hfile
  simp only [importer, loadImport]
  rcases hworld : l.world.resolve uri file with ⟨result, w⟩
  rw [hworld] at hresult hbeside
  dsimp only at hresult hbeside
  subst hresult
  cases hresolve : lib.resolve d uri file with
  | error fault =>
    rw [importAnew_of_error hresolve]
    exact ⟨rfl, hbeside, fun _ _ h => by cases h⟩
  | ok p =>
    obtain ⟨htree, hloaded⟩ := load_beside htrees hbeside p
    rw [importAnew_of_ok hresolve]
    dsimp only
    rcases hload : c.load p { l with world := w } with ⟨tree, l'⟩
    rw [hload] at htree hloaded
    dsimp only at htree hloaded
    rw [← htree]
    cases tree with
    | error fault => exact ⟨rfl, hloaded, fun _ _ h => by cases h⟩
    | ok source =>
      refine ⟨rfl, hloaded, fun source' path h => ?_⟩
      cases h
      exact hlib.not_mem hclear (Library.exists_of_resolve hresolve)

/-- A compiler that remembers no trees expands a sheet as compiling anew does. -/
theorem source_beside (hlib : lib.Rooted) (hclear : d.IsClear) (htrees : lib.trees.items = [])
    (hp : 0 ∉ p) (source : Source) :
    Expand.Alike (Beside lib d) (Expand.source c.settings c.fuel p source)
      (c.expandAnew lib d p source) := by
  have hloading : Expand.LoadingRelated
      (fun file _ m n => 0 ∉ file → Expand.Alike (Beside lib d) m n) c.importer
      (c.importAnew lib d) :=
    Expand.loadingRelated_within (importer_beside hlib hclear htrees)
  exact Expand.source_related ((Expand.compatible_alike (Beside lib d)).within _)
    ⟨rfl, rfl, .some hloading⟩ c.fuel p source hp

/-- **A compiler with a new library compiles anew.** -/
theorem compileFile_eq_anew (hlib : lib.Rooted) (hclear : d.IsClear)
    (htrees : lib.trees.items = []) (hresolved : lib.resolved.items = []) (path : Text) :
    (c.compileFile path ⟨d, lib, []⟩).1 = c.compileAnew lib d path := by
  have hrecalls : (lib.withResolved lib.resolved).Recalls d := by
    intro entry hentry
    rw [show (lib.withResolved lib.resolved).resolved = lib.resolved from rfl, hresolved] at hentry
    cases hentry
  have hstart : Beside lib d (.start ⟨d, lib, []⟩) .empty := .mk hrecalls
  obtain ⟨hresult, hbeside⟩ := resolve_beside hstart path List.not_mem_nil
  rcases hworld : World.resolve ⟨d, lib, []⟩ path [] with ⟨result, w⟩
  rw [show (Loader.start ⟨d, lib, []⟩).world = ⟨d, lib, []⟩ from rfl, hworld] at hresult hbeside
  dsimp only at hresult
  subst hresult
  cases hresolve : lib.resolve d path [] with
  | error fault => rw [compileFile, hworld, hresolve, compileAnew_of_unresolved hresolve]
  | ok p =>
    have hp := hlib.not_mem hclear (Library.exists_of_resolve hresolve)
    obtain ⟨htree, hloaded⟩ := load_beside (c := c) htrees hbeside p
    unfold compileAnew
    rw [compileFile, hworld, hresolve]
    dsimp only
    rw [show Loader.start w = { Loader.start ⟨d, lib, []⟩ with world := w } from rfl]
    generalize c.load p { Loader.start ⟨d, lib, []⟩ with world := w } = loaded at htree hloaded ⊢
    generalize Shelf.empty.load (lib.treeAt c.propertySyntax d) p = shelved at htree hloaded ⊢
    obtain ⟨tree, l⟩ := loaded
    obtain ⟨tree', s⟩ := shelved
    obtain rfl : tree = tree' := htree
    cases tree with
    | error fault =>
      obtain ⟨-⟩ := hloaded
      rfl
    | ok source =>
      obtain ⟨hcss, hended⟩ := source_beside hlib hclear htrees hp source l s hloaded
      dsimp only
      rw [render]
      generalize (Expand.source c.settings c.fuel p source).run l = ran at hcss hended ⊢
      generalize (c.expandAnew lib d p source).run s = ran' at hcss hended ⊢
      obtain ⟨css, l'⟩ := ran
      obtain ⟨css', s'⟩ := ran'
      obtain rfl : css = css' := hcss
      obtain ⟨-⟩ := hended
      cases css <;> rfl

end NewLibraries

end Compiler

end IndentedSass
