import IndentedSass.Proofs.Dependencies
import IndentedSass.Proofs.Documents
import IndentedSass.Proofs.Visits

/-!
# What a library has been through

A library in memory starts empty. Then compilers use it and files change, in any order
(`Library.Past`). What it remembers by then may be out of date: a target that it has resolved need
not be a file any more, and a tree is taken to be current as long as its file shows the time of
then. What is left is that everything it remembers stems from one of the disks so far
(`Library.StemsFrom`).

A compilation starts in such a state and stays in one (`Compiler.Faithful`): what it loads is the
tree of a text that the file had under the time that it shows (`Disk.Held`), or the file that was
there cannot be read (`Disk.Unread`). `Library.Past.stemsFrom` puts compilations and changes
together.
-/

namespace IndentedSass

/-- The tree of a document. -/
def Document.tree (doc : Document) (way : PropertySyntax) : Except Fault Source :=
  Source.parse way doc.text doc.file doc.first

/-! ## Texts of the past -/

namespace Disk
variable {seen : List Disk} {d : Disk} {p : Text} {doc : Document}

/-- A text that the file at a path had on one of the disks, at the time that the path shows now. -/
def Held (seen : List Disk) (d : Disk) (p : Text) (doc : Document) : Prop :=
  ∃ d₀ ∈ seen, ∃ f, d₀.look p = .file f ∧ d.modTime p = .ok f.mtime ∧ doc = ⟨p, f.text, 1⟩

theorem held_of_look {f : File} (hd : d ∈ seen) (h : d.look p = .file f) :
    Held seen d p ⟨p, f.text, 1⟩ := by
  refine ⟨d, hd, f, h, ?_, rfl⟩
  rw [modTime, h]

theorem Held.first_nonneg (h : Held seen d p doc) : 0 ≤ doc.first := by
  obtain ⟨-, -, -, -, -, rfl⟩ := h
  exact Int.one_nonneg

theorem Held.file_eq (h : Held seen d p doc) : doc.file = p := by
  obtain ⟨-, -, -, -, -, rfl⟩ := h
  rfl

theorem isFile_of_look {f : File} (h : d.look p = .file f) : d.isFile p = true := by
  rw [isFile, h]

/-- What can be read is a file. -/
theorem look_of_read {text : Text} (h : d.read p = .ok text) :
    ∃ f, d.look p = .file f ∧ f.text = text := by
  rw [read] at h
  cases hlook : d.look p with
  | file f =>
    rw [hlook] at h
    exact ⟨f, rfl, Except.ok.inj h⟩
  | dir | missing | blocked | invalid | tooLong =>
    rw [hlook] at h
    cases h

/-- If no file shows an old time with another text, such a text is the present one. -/
theorem Held.read_eq (h : Held seen d p doc) (hkeeps : ∀ d₀ ∈ seen, Keeps d₀ d) :
    d.read p = .ok doc.text := by
  obtain ⟨d₀, hd₀, f, hlook, htime, rfl⟩ := h
  exact hkeeps d₀ hd₀ p f hlook htime

/-- Why a file that was there cannot be read. -/
inductive Unread (d : Disk) (p : Text) : Fault → Prop
  | missing (h : d.read p = .error .missing) :
    Unread d p (.language .importNotFound ("unable to read " ++ p) .none (some .notFound))
  | other {message : Text} (h : d.read p = .error (.other message)) :
    Unread d p (.tagged ("read " ++ p) (.plain message))

/-- A disk in memory tells one other reason: there is a directory. -/
theorem look_of_read_other {message : Text} (hmemory : d.isNative = false)
    (h : d.read p = .error (.other message)) : d.look p = .dir := by
  rw [read] at h
  cases hlook : d.look p with
  | dir => rfl
  | file | missing =>
    rw [hlook] at h
    cases h
  | blocked | invalid | tooLong =>
    -- a disk in memory does not tell these apart
    unfold look at hlook
    simp only [hmemory, Bool.false_and, Bool.or_false] at hlook
    split at hlook
    · cases hlook
    · split at hlook
      · cases hlook
      · split at hlook <;> cases hlook

end Disk

/-! ## Memories -/

namespace Library
variable {lib : Library} {way : PropertySyntax} {seen seen' : List Disk} {d : Disk} {p : Text}

/-- A target that is not found is a fault of the language, still without a position. -/
theorem bare_resolve (lib : Library) (d : Disk) (uri file : Text) :
    Outcome.Bare (lib.resolve d uri file) := by
  unfold resolve
  dsimp only
  split
  · exact Outcome.endsIn_ok _
  split
  · exact Outcome.endsIn_ok _
  split
  · exact Outcome.endsIn_ok _
  · exact (Outcome.endsIn_error _).mpr rfl

/-- So is one that is looked for among the remembered targets first. -/
theorem bare_resolveCached (lib : Library) (d : Disk) (uri file : Text) :
    Outcome.Bare (lib.resolveCached d uri file).1 := by
  have hends := lib.resolved.ends (resolveKey uri file) fun _ => lib.resolve d uri file
  unfold resolveCached
  dsimp only
  generalize (lib.resolved.getOrCompute (resolveKey uri file) fun _ => lib.resolve d uri file) =
    answer at hends
  cases hends with
  | stored _ | computed _ _ => exact Outcome.endsIn_ok _
  | failed _ hfault => exact (Outcome.endsIn_error _).mpr (lib.bare_resolve d uri file _ hfault)

/-- What a library in memory remembers stems from some disks: its targets were files there, and its
trees were seen there. -/
structure StemsFrom (way : PropertySyntax) (seen : List Disk) (lib : Library) : Prop where
  inMemory : lib.InMemory
  targets : ∀ entry ∈ lib.resolved.items, ∃ d ∈ seen, d.isFile entry.2 = true
  trees : lib.Remembers way seen

/-- A new library remembers nothing. -/
theorem stemsFrom_new (o : LibraryOptions) (choices : Choices) (way : PropertySyntax)
    (seen : List Disk) : ((inMemory o).choosing choices).StemsFrom way seen :=
  ⟨⟨rfl, rfl⟩, List.forall_mem_nil _, nofun⟩

namespace StemsFrom

theorem mono (h : lib.StemsFrom way seen) (hseen : ∀ d ∈ seen, d ∈ seen') :
    lib.StemsFrom way seen' where
  inMemory := h.inMemory
  targets entry hentry := by
    obtain ⟨d, hd, hfile⟩ := h.targets entry hentry
    exact ⟨d, hseen d hd, hfile⟩
  trees := h.trees.mono hseen fun _ hentry => hentry

theorem withTrees {trees : Recent Text CachedTree} (h : lib.StemsFrom way seen)
    (htrees : (lib.withTrees trees).Remembers way seen) :
    (lib.withTrees trees).StemsFrom way seen :=
  ⟨⟨h.inMemory.root, h.inMemory.workDir⟩, h.targets, htrees⟩

/-- **A tree that is found is that of a text of the past**, and looking spoils nothing. -/
theorem getCached (h : lib.StemsFrom way seen) {d₀ : Disk} (hp : d₀.isFile p = true) :
    (lib.getCached d p).2.StemsFrom way seen ∧
      ∀ src, (lib.getCached d p).1 = some src →
        ∃ doc, Disk.Held seen d p doc ∧ doc.tree way = .ok src := by
  obtain ⟨found, trees, hget, htrees, hfound⟩ := lib.getCached_eq d p
  rw [hget]
  refine ⟨h.withTrees (h.trees.mono (fun _ hd => hd) htrees), fun src hsrc => ?_⟩
  obtain ⟨entry, hentry, rfl, htime⟩ := hfound src hsrc
  obtain ⟨d₁, hd₁, f, hlook, hmtime, hparse⟩ := h.trees p entry hentry
  rw [h.inMemory.toDisk_of_isFile hp] at hlook
  rw [modTime_eq_ok, h.inMemory.toDisk_of_isFile hp, ← hmtime] at htime
  exact ⟨_, ⟨d₁, hd₁, f, hlook, htime, rfl⟩, hparse⟩

/-- The tree of such a text may be remembered. -/
theorem putCached {doc : Document} {src : Source} (h : lib.StemsFrom way seen)
    (hheld : Disk.Held seen d p doc) (hsrc : doc.tree way = .ok src) :
    (lib.putCached d p src).StemsFrom way seen := by
  obtain ⟨d₀, hd₀, f, hlook, hmtime, rfl⟩ := hheld
  have hdisk := h.inMemory.toDisk_of_isFile (Disk.isFile_of_look hlook)
  have hsaw : ∀ time, lib.modTime d p = .ok time → lib.Saw way seen p ⟨src, time⟩ := by
    intro time htime
    rw [modTime_eq_ok, hdisk, hmtime] at htime
    rw [← Except.ok.inj htime]
    exact ⟨d₀, hd₀, f, hdisk.symm ▸ hlook, rfl, hsrc⟩
  obtain ⟨trees, hput, htrees⟩ := h.trees.putCached hsaw
  rw [hput]
  exact h.withTrees htrees

/-- A target is resolved to what was a file, or it is not found. -/
theorem resolveCached (h : lib.StemsFrom way seen) (hd : d ∈ seen) (uri file : Text) :
    (lib.resolveCached d uri file).2.StemsFrom way seen ∧
      (∀ p, (lib.resolveCached d uri file).1 = .ok p → ∃ d₀ ∈ seen, d₀.isFile p = true) ∧
      Outcome.Bare (lib.resolveCached d uri file).1 := by
  have hsame : lib.withResolved lib.resolved = lib := rfl
  have hfiles : ∀ p, d.isFile p = true → ∃ d₀ ∈ seen, d₀.isFile p = true :=
    fun _ hp => ⟨d, hd, hp⟩
  obtain ⟨resolved, hlib, htargets, hfile⟩ :=
    h.inMemory.resolveCached hfiles h.targets uri file
  rw [hsame] at hlib hfile
  refine ⟨?_, hfile, lib.bare_resolveCached d uri file⟩
  rw [hlib]
  exact ⟨⟨h.inMemory.root, h.inMemory.workDir⟩, htargets, h.trees⟩

end StemsFrom

end Library

/-! ## Loading -/

namespace Compiler
variable {c : Compiler} {way : PropertySyntax} {seen : List Disk} {d : Disk} {l : Loader} {p : Text}

/-- A loader over a disk: all that it has, stems from the disks so far. -/
structure Faithful (way : PropertySyntax) (seen : List Disk) (d : Disk) (l : Loader) : Prop where
  disk : l.world.disk = d
  library : l.world.library.StemsFrom way seen
  pending : ∀ p src, (p, src) ∈ l.pending →
    p ∈ l.files ∧ ∃ doc, Disk.Held seen d p doc ∧ doc.tree way = .ok src

theorem faithful_start {w : World} (hdisk : w.disk = d) (h : w.library.StemsFrom way seen) :
    Faithful way seen d (.start w) :=
  ⟨hdisk, h, nofun⟩

/-- What loading comes to at a path where there was a file. -/
inductive Loads (way : PropertySyntax) (seen : List Disk) (d : Disk) (p : Text) :
    Except Fault Source → Prop
  | document {doc : Document} (held : Disk.Held seen d p doc) : Loads way seen d p (doc.tree way)
  | unread {f : Fault} (h : Disk.Unread d p f) : Loads way seen d p (.error f)

theorem Loads.of_tree {doc : Document} {src : Source} (held : Disk.Held seen d p doc)
    (h : doc.tree way = .ok src) : Loads way seen d p (.ok src) :=
  h ▸ .document held

theorem Loads.exists_of_ok {src : Source} {tree : Except Fault Source}
    (h : Loads way seen d p tree) (hsrc : tree = .ok src) :
    ∃ doc, Disk.Held seen d p doc ∧ doc.tree way = .ok src := by
  cases h with
  | document held => exact ⟨_, held, hsrc⟩
  | unread _ => cases hsrc

theorem Loads.of_error {f : Fault} {tree : Except Fault Source} (h : Loads way seen d p tree)
    (hf : tree = .error f) :
    Disk.Unread d p f ∨ ∃ doc, Disk.Held seen d p doc ∧ doc.tree way = .error f := by
  cases h with
  | document held => exact .inr ⟨_, held, hf⟩
  | unread hunread =>
    cases hf
    exact .inl hunread

/-- The tree of a file is read from it. -/
theorem loads_treeAt {lib : Library} (hlib : lib.InMemory) (hd : d ∈ seen) {d₀ : Disk}
    (hp : d₀.isFile p = true) : Loads way seen d p (lib.treeAt way d p) := by
  have hdisk := hlib.toDisk_of_isFile hp
  unfold Library.treeAt Library.read
  rw [hdisk]
  cases hread : d.read p with
  | error fault =>
    cases fault with
    | missing => exact .unread (.missing hread)
    | other message => exact .unread (.other hread)
  | ok text =>
    obtain ⟨f, hlook, rfl⟩ := Disk.look_of_read hread
    exact .document (Disk.held_of_look hd hlook)

/-- A remembered tree is used only if its file shows the time that was noted for it. -/
theorem Faithful.cachedTree (h : Faithful c.propertySyntax seen d l) {d₀ : Disk}
    (hp : d₀.isFile p = true) :
    (c.cachedTree l.world p).2.disk = d ∧
      (c.cachedTree l.world p).2.library.StemsFrom c.propertySyntax seen ∧
      ∀ src, (c.cachedTree l.world p).1 = some src → Loads c.propertySyntax seen d p (.ok src) := by
  rw [Compiler.cachedTree]
  split
  · obtain ⟨hlib, hfound⟩ := h.library.getCached (d := d) hp
    rw [← h.disk] at hlib hfound ⊢
    refine ⟨rfl, hlib, fun src hsrc => ?_⟩
    obtain ⟨doc, hheld, htree⟩ := hfound src hsrc
    exact .of_tree hheld htree
  · exact ⟨h.disk, h.library, fun src hsrc => by cases hsrc⟩

/-- A loader that notes what loading comes to stays faithful. -/
theorem Faithful.note {w : World} {tree : Except Fault Source} (h : Faithful way seen d l)
    (hdisk : w.disk = d) (hlib : w.library.StemsFrom way seen) (htree : Loads way seen d p tree) :
    Faithful way seen d (l.note p w tree).2 := by
  have hold : ∀ q src, (q, src) ∈ l.pending →
      q ∈ l.files ++ [p] ∧ ∃ doc, Disk.Held seen d q doc ∧ doc.tree way = .ok src := by
    intro q src hq
    obtain ⟨hmem, hdoc⟩ := h.pending q src hq
    exact ⟨List.mem_append_left _ hmem, hdoc⟩
  cases tree with
  | error f => exact ⟨hdisk, hlib, hold⟩
  | ok src =>
    refine ⟨hdisk, hlib, fun q src' hq => ?_⟩
    rcases List.mem_append.mp hq with hq | hq
    · exact hold q src' hq
    · cases List.mem_singleton.mp hq
      exact ⟨List.mem_append_right _ List.mem_cons_self, htree.exists_of_ok rfl⟩

/-- **What loading a file comes to.** The file is listed either way. -/
theorem Faithful.load (h : Faithful c.propertySyntax seen d l) (hd : d ∈ seen)
    (hp : ∃ d₀ ∈ seen, d₀.isFile p = true) :
    Faithful c.propertySyntax seen d (c.load p l).2 ∧ l.files <+: (c.load p l).2.files ∧
      p ∈ (c.load p l).2.files ∧ Loads c.propertySyntax seen d p (c.load p l).1 := by
  obtain ⟨d₀, -, hp⟩ := hp
  cases hpending : l.pending.lookup p with
  | some src =>
    have hload : c.load p l = (.ok src, l) := by rw [Compiler.load, hpending]
    obtain ⟨hmem, doc, hheld, htree⟩ := h.pending p src (Recent.mem_of_lookup hpending)
    rw [hload]
    exact ⟨h, List.prefix_refl _, hmem, .of_tree hheld htree⟩
  | none =>
    obtain ⟨hdisk, hlib, hfound⟩ := h.cachedTree hp
    obtain ⟨w, tree, hw, hwlib, hload, htree⟩ : ∃ w tree, w.disk = d ∧
        w.library.StemsFrom c.propertySyntax seen ∧ c.load p l = l.note p w tree ∧
        Loads c.propertySyntax seen d p tree := by
      rcases hcached : c.cachedTree l.world p with ⟨_ | src, w⟩ <;>
        rw [hcached] at hdisk hlib hfound
      · refine ⟨(w.read p).2, _, hdisk, hlib, load_of_none hpending hcached, ?_⟩
        rw [hdisk]
        exact loads_treeAt hlib.inMemory hd hp
      · exact ⟨w, _, hdisk, hlib, load_of_some hpending hcached, hfound src rfl⟩
    have hresult : (l.note p w tree).1 = tree := by cases tree <;> rfl
    have hfiles := Loader.files_note l p w tree
    rw [hload, hresult, hfiles]
    exact ⟨h.note hw hwlib htree, List.prefix_append _ _,
      List.mem_append_right _ List.mem_cons_self, htree⟩

/-- What loading an import comes to: its target is not found, or what was a file is loaded. -/
inductive Fetches (way : PropertySyntax) (seen : List Disk) (d : Disk) (files : List Text) :
    Except Fault (Source × Text) → Prop
  | unresolved {f : Fault} (bare : f.IsBare) : Fetches way seen d files (.error f)
  | loaded {p : Text} {tree : Except Fault Source} (was : ∃ d₀ ∈ seen, d₀.isFile p = true)
    (listed : p ∈ files) (loads : Loads way seen d p tree) :
    Fetches way seen d files (tree.map fun src => (src, p))

theorem Fetches.exists_of_ok {files : List Text} {src : Source}
    {result : Except Fault (Source × Text)} (h : Fetches way seen d files result)
    (hresult : result = .ok (src, p)) :
    p ∈ files ∧ ∃ doc, Disk.Held seen d p doc ∧ doc.tree way = .ok src := by
  cases h with
  | unresolved _ => cases hresult
  | @loaded q tree _ listed loads =>
    cases tree with
    | error f => cases hresult
    | ok src' =>
      cases hresult
      exact ⟨listed, loads.exists_of_ok rfl⟩

/-- A load that fails: the target is not found, the file cannot be read, or its text is refused. -/
theorem Fetches.of_error {files : List Text} {f : Fault} {result : Except Fault (Source × Text)}
    (h : Fetches way seen d files result) (hresult : result = .error f) :
    f.IsBare ∨ ∃ p, (∃ d₀ ∈ seen, d₀.isFile p = true) ∧ p ∈ files ∧
      (Disk.Unread d p f ∨ ∃ doc, Disk.Held seen d p doc ∧ doc.tree way = .error f) := by
  cases h with
  | unresolved bare =>
    cases hresult
    exact .inl bare
  | @loaded p tree was listed loads =>
    cases tree with
    | ok src => cases hresult
    | error g =>
      cases hresult
      exact .inr ⟨p, was, listed, loads.of_error rfl⟩

/-- Resolving a target leaves a faithful loader, and a target that is found was a file. -/
theorem Faithful.resolve {uri file : Text} {target : Except Fault Text} {w : World}
    (h : Faithful way seen d l) (hd : d ∈ seen)
    (hresolve : l.world.resolve uri file = (target, w)) :
    Faithful way seen d { l with world := w } ∧
      (∀ p, target = .ok p → ∃ d₀ ∈ seen, d₀.isFile p = true) ∧ Outcome.Bare target := by
  obtain ⟨hlib, hfile, hbare⟩ := h.library.resolveCached hd uri file
  rw [← h.disk] at hlib hfile hbare
  rw [World.resolve] at hresolve
  cases hresolve
  exact ⟨⟨h.disk, hlib, h.pending⟩, hfile, hbare⟩

/-- **What loading an import comes to**, whatever the library remembers of it. -/
theorem Faithful.loadImport (h : Faithful c.propertySyntax seen d l) (hd : d ∈ seen)
    (uri file : Text) :
    Faithful c.propertySyntax seen d (c.loadImport uri file l).2 ∧
      l.files <+: (c.loadImport uri file l).2.files ∧
      Fetches c.propertySyntax seen d (c.loadImport uri file l).2.files
        (c.loadImport uri file l).1 := by
  rcases hresolve : l.world.resolve uri file with ⟨target, w⟩
  obtain ⟨hfaithful, hfile, hbare⟩ := h.resolve hd hresolve
  cases target with
  | error f =>
    rw [Compiler.loadImport, hresolve]
    exact ⟨hfaithful, List.prefix_refl _, .unresolved (hbare f rfl)⟩
  | ok p =>
    obtain ⟨hloaded, hgrows, hlisted, hloads⟩ := hfaithful.load hd (hfile p rfl)
    rw [loadImport_of_ok hresolve]
    exact ⟨hloaded, hgrows, .loaded (hfile p rfl) hlisted hloads⟩

/-- Loaded trees may be handed over. -/
theorem Faithful.commit (h : Faithful way seen d l) :
    (c.commit l).library.StemsFrom way seen := by
  rw [library_commit, h.disk]
  have hhanded : ∀ p src, (p, src) ∈ (if c.options.cache then
      l.world.library.handOver.order l.pending else []) →
      ∃ doc, Disk.Held seen d p doc ∧ doc.tree way = .ok src := by
    intro p src hmem
    split at hmem
    · exact (h.pending p src ((l.world.library.handOver.perm _).mem_iff.1 hmem)).2
    · cases hmem
  -- the order in which they are handed over does not matter, as each may be remembered
  generalize (if c.options.cache then l.world.library.handOver.order l.pending else []) = handed
    at hhanded
  have hlib := h.library
  generalize l.world.library = lib at hlib ⊢
  induction handed generalizing lib with
  | nil => exact hlib
  | cons first rest ih =>
    obtain ⟨doc, hheld, htree⟩ := hhanded first.1 first.2 List.mem_cons_self
    exact ih (fun p src hmem => hhanded p src (List.mem_cons_of_mem _ hmem)) _
      (hlib.putCached hheld htree)

/-! ## Compiling -/

/-- What every expansion promises about its loader. -/
def faithful (c : Compiler) (seen : List Disk) (d : Disk) (hd : d ∈ seen) :
    Expand.Promise c.settings where
  Sound := Faithful c.propertySyntax seen d
  Later _ _ := True
  Vouched _ _ := True
  refl _ := trivial
  trans _ _ := trivial
  mono _ h := h
  nested h _ _ := h
  load := by
    intro importer l himporter hsound uri file
    cases himporter
    exact ⟨(hsound.loadImport hd uri file).1, trivial, fun _ _ _ _ _ => trivial⟩

/-- A failed expansion hands nothing over, and one that succeeds has loaded what it hands over. -/
theorem Faithful.render (h : Faithful c.propertySyntax seen d l) (hd : d ∈ seen) (src : Source)
    (file : Text) : (c.render src file l).2.world.library.StemsFrom c.propertySyntax seen := by
  have hend := ((c.faithful seen d hd).steady_source c.fuel file src l h).1
  rw [Compiler.render]
  rcases hrun : (Expand.source c.settings c.fuel file src).run l with ⟨stop | css, l'⟩
  · rw [hrun] at hend
    exact Faithful.library hend
  · rw [hrun] at hend
    exact Faithful.commit hend

theorem stemsFrom_compile {lib : Library} (h : lib.StemsFrom c.propertySyntax seen) (hd : d ∈ seen)
    (text : Text) (reads : List Text) :
    (c.compile text ⟨d, lib, reads⟩).2.library.StemsFrom c.propertySyntax seen := by
  rw [compile]
  cases c.parse text with
  | error fault => exact h
  | ok src =>
    have hstart : Faithful c.propertySyntax seen d (.start ⟨d, lib, reads⟩) := faithful_start rfl h
    exact hstart.render hd src []

theorem stemsFrom_compileFile {lib : Library} (h : lib.StemsFrom c.propertySyntax seen)
    (hd : d ∈ seen) (path : Text) (reads : List Text) :
    (c.compileFile path ⟨d, lib, reads⟩).2.library.StemsFrom c.propertySyntax seen := by
  have hstart : Faithful c.propertySyntax seen d (.start ⟨d, lib, reads⟩) := faithful_start rfl h
  rcases hresolve : World.resolve ⟨d, lib, reads⟩ path [] with ⟨target, w⟩
  obtain ⟨hfaithful, hfile, -⟩ := hstart.resolve hd hresolve
  rw [compileFile, hresolve]
  cases target with
  | error fault => exact hfaithful.library
  | ok p =>
    have hload := (Faithful.load hfaithful hd (hfile p rfl)).1
    have hworld : ({ Loader.start ⟨d, lib, reads⟩ with world := w } : Loader) = .start w := rfl
    rw [hworld] at hload
    dsimp only
    rcases htree : c.load p (.start w) with ⟨fault | src, l'⟩
    · rw [htree] at hload
      exact hload.library
    · rw [htree] at hload
      exact hload.render hd src p

end Compiler

/-! ## Pasts -/

namespace Library
variable {lib : Library} {way : PropertySyntax} {d : Disk} {before : List Disk}

/-- How a library in memory comes about, on a disk and after some earlier ones. It starts empty, and
then compilers that read properties in the same way use it, files are written and removed, and trees
are forgotten. -/
inductive Past (way : PropertySyntax) : Disk → List Disk → Library → Prop
  | new (o : LibraryOptions) (choices : Choices) (d : Disk) :
    Past way d [] ((inMemory o).choosing choices)
  | act {d : Disk} {before : List Disk} {lib : Library} (h : Past way d before lib) (c : Compiler)
    (hc : c.propertySyntax = way) (reads : List Text) (a : Act) :
    Past way (a.run c ⟨d, lib, reads⟩).2.disk (d :: before) (a.run c ⟨d, lib, reads⟩).2.library

theorem past_new (way : PropertySyntax) (o : LibraryOptions) (d : Disk) :
    (inMemory o).Past way d [] :=
  .new o .plain d

/-- One act: only compiling adds to what is remembered. -/
theorem stemsFrom_act {c : Compiler} {seen : List Disk} (h : lib.StemsFrom c.propertySyntax seen)
    (hd : d ∈ seen) (reads : List Text) (a : Act) :
    (a.run c ⟨d, lib, reads⟩).2.library.StemsFrom c.propertySyntax seen := by
  cases a with
  | write path file => exact h
  | remove path => exact h
  | forget keep =>
    have hkept : ∀ entry ∈ lib.trees.items.filter fun entry => keep entry.1,
        entry ∈ lib.trees.items := fun entry hentry => (List.mem_filter.mp hentry).1
    exact h.withTrees (h.trees.mono (fun _ hd => hd) hkept)
  | compile source => exact Compiler.stemsFrom_compile h hd source reads
  | compileFile path => exact Compiler.stemsFrom_compileFile h hd path reads

/-- **Whatever a library has been through**, its memories stem from the disks on the way. -/
theorem Past.stemsFrom (h : Past way d before lib) : lib.StemsFrom way (d :: before) := by
  induction h with
  | new o choices d => exact stemsFrom_new o choices way _
  | act _ c hc reads a ih =>
    subst hc
    exact (stemsFrom_act ih List.mem_cons_self reads a).mono fun _ => List.mem_cons_of_mem _

end Library

end IndentedSass
