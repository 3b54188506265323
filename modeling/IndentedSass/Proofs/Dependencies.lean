import IndentedSass.Proofs.Resolution
import IndentedSass.Proofs.TreeCache

/-!
# The listed files are all that matters

A compiled file comes with the list of the files that were loaded for it. This module shows that
the list is complete: whatever is changed on the disk outside of the listed files, the style sheet
or the fault stays the same, and so does the list. No file is listed twice, and the file itself
comes first.

An import resolves by the paths of a disk alone (`Library.resolve_eq`), so a text can only matter
once its file is loaded, and then it is listed. `Compiler.Tracks` says this of a computation,
together with what it does to the list: files are only ever added at the end, and as long as nothing
has failed they are the files of the loaded trees.
-/

namespace IndentedSass

/-! ## Reading on two disks -/

namespace Disk
variable {d d' : Disk}

theorem SamePaths.isDir (h : SamePaths d d') (path : Text) : d.isDir path = d'.isDir path := by
  have hfiles (d : Disk) : (d.files.any fun entry => isBelow path entry.1) =
      (d.files.map Prod.fst).any (isBelow path) := by
    rw [List.any_map]
    rfl
  rw [Bool.eq_iff_iff]
  simp only [Disk.isDir, hfiles, Bool.or_eq_true, List.any_eq_true, List.contains_iff_mem,
    h.files, h.dirs]

/-- Disks with the same paths that have the same text at a path read the same there. -/
theorem SamePaths.read (h : SamePaths d d') {path : Text}
    (htext : (d.file? path).map File.text = (d'.file? path).map File.text) :
    d.read path = d'.read path := by
  have hup : (fun dir => (d.file? dir).isSome) = fun dir => (d'.file? dir).isSome :=
    funext h.isSome_file?
  cases hf : d.file? path with
  | none =>
    have hf' : d'.file? path = none := by
      rw [hf] at htext
      exact Option.map_eq_none_iff.mp htext.symm
    have hlook : d.look path = d'.look path := by
      simp only [look, hf, hf', h.isNative, h.isDir, funext h.isDir, hup]
    rw [Disk.read, Disk.read, hlook, h.isNative]
  | some f =>
    obtain ⟨f', hf', hsame⟩ : ∃ f', d'.file? path = some f' ∧ f'.text = f.text := by
      rw [hf] at htext
      exact Option.map_eq_some_iff.mp htext.symm
    simp only [Disk.read, look, hf, hf', h.isNative]
    by_cases hguard : (!Path.isValid path || d'.isNative && path.any (· == 0)) = true
    · rw [if_pos hguard, if_pos hguard]
    · rw [if_neg hguard, if_neg hguard]
      exact congrArg Except.ok hsame.symm

end Disk

namespace Bounded
variable {κ υ : Type} [BEq κ] [LawfulBEq κ] {k : κ} {v : υ} {c : Bounded κ υ} {entry : κ × υ}

theorem mem_replace {items : List (κ × υ)} (h : entry ∈ replace k v items) :
    entry = (k, v) ∨ entry ∈ items := by
  induction items with
  | nil => cases h
  | cons first rest ih =>
    obtain ⟨key, w⟩ := first
    rw [replace] at h
    split at h
    · rename_i hkey
      rcases List.mem_cons.mp h with rfl | h
      · rw [eq_of_beq hkey]
        exact .inl rfl
      · exact .inr (List.mem_cons_of_mem _ h)
    · rcases List.mem_cons.mp h with rfl | h
      · exact .inr List.mem_cons_self
      · exact (ih h).imp id (List.mem_cons_of_mem _)

/-- A stored entry is the new one or was there before. -/
theorem mem_add {victim : Nat} (h : entry ∈ (c.add victim k v).2.items) :
    entry = (k, v) ∨ entry ∈ c.items := by
  rw [add] at h
  split at h
  · exact mem_replace h
  · split at h
    · rcases List.mem_append.mp h with h | h
      · exact .inr (List.mem_of_mem_eraseIdx h)
      · exact .inl (List.mem_singleton.mp h)
    · rcases List.mem_append.mp h with h | h
      · exact .inr h
      · exact .inl (List.mem_singleton.mp h)

end Bounded

namespace Memo
variable {κ υ : Type} [BEq κ]

/-- The choices that are left after a call. -/
def later (m : Memo κ υ) : Nat → Nat := fun call => m.victims (call + 1)

/-- What a call of a memo can come to: a stored value, a fault that is not stored, or a computed
value that is. -/
inductive Ends (m : Memo κ υ) (k : κ) (computed : Except Fault υ) : Except Fault υ × Memo κ υ → Prop
  | stored {v : υ} (h : m.get? k = some v) : Ends m k computed (.ok v, ⟨m.toBounded, m.later⟩)
  | failed {fault : Fault} (h : m.get? k = none) (hcomputed : computed = .error fault) :
    Ends m k computed (.error fault, ⟨m.toBounded, m.later⟩)
  | computed {v : υ} (h : m.get? k = none) (hcomputed : computed = .ok v) :
    Ends m k computed (.ok v, ⟨(m.add (m.victims 0) k v).2, m.later⟩)

theorem ends (m : Memo κ υ) (k : κ) (f : Unit → Except Fault υ) :
    m.Ends k (f ()) (m.getOrCompute k f) := by
  rw [getOrCompute, Bounded.getOrCompute]
  cases hget : m.get? k with
  | some v => exact .stored hget
  | none =>
    cases hcomputed : f () with
    | error fault => exact .failed hget rfl
    | ok v => exact .computed hget rfl

end Memo

namespace Library
variable {way : PropertySyntax} {lib : Library} {d d' : Disk} {uri file p : Text}

/-- The library with other remembered targets. -/
def withResolved (lib : Library) (resolved : Memo Text Text) : Library := { lib with resolved }

theorem treeAt_withResolved (resolved : Memo Text Text) :
    (lib.withResolved resolved).treeAt way d p = lib.treeAt way d p := by
  unfold treeAt Library.read toDisk
  rfl

/-- Two disks give the same answer to reading a file. -/
def Agree (lib : Library) (d d' : Disk) (p : Text) : Prop := lib.read d p = lib.read d' p

theorem treeAt_eq (h : lib.Agree d d' p) : lib.treeAt way d p = lib.treeAt way d' p := by
  unfold treeAt
  rw [h]

theorem InMemory.agree (hlib : lib.InMemory) (hd : d.SamePaths d') (hfile : d.isFile p = true)
    (htext : (d.file? p).map File.text = (d'.file? p).map File.text) : lib.Agree d d' p := by
  unfold Agree Library.read
  rw [hlib.toDisk_of_isFile hfile, hd.read htext]

/-- Resolving a target gives a file or fails. What holds of all files and of all targets that are
remembered, holds of what it gives and remembers. -/
theorem InMemory.resolveCached (hlib : lib.InMemory) {P : Text → Prop}
    (hP : ∀ p, d.isFile p = true → P p) {resolved : Memo Text Text}
    (h : ∀ entry ∈ resolved.items, P entry.2) (uri file : Text) :
    ∃ resolved', ((lib.withResolved resolved).resolveCached d uri file).2 =
        lib.withResolved resolved' ∧ (∀ entry ∈ resolved'.items, P entry.2) ∧
      ∀ p, ((lib.withResolved resolved).resolveCached d uri file).1 = .ok p → P p := by
  have hmemo : (lib.withResolved resolved).resolveCached d uri file =
      ((resolved.getOrCompute (resolveKey uri file) fun _ => lib.resolve d uri file).1,
        lib.withResolved
          (resolved.getOrCompute (resolveKey uri file) fun _ => lib.resolve d uri file).2) := rfl
  have hends := resolved.ends (resolveKey uri file) fun _ => lib.resolve d uri file
  rw [hmemo]
  generalize (resolved.getOrCompute (resolveKey uri file) fun _ => lib.resolve d uri file) = answer
    at hends
  cases hends with
  | stored hget =>
    refine ⟨_, rfl, h, fun p hp => ?_⟩
    cases hp
    exact h _ (Recent.mem_of_lookup hget)
  | failed _ _ => exact ⟨_, rfl, h, nofun⟩
  | computed _ hq =>
    have hfile := hP _ (hlib.isFile_of_resolve hq)
    refine ⟨_, rfl, fun entry hentry => ?_, fun p hp => ?_⟩
    · rcases Bounded.mem_add hentry with hnew | hold
      · rw [hnew]
        exact hfile
      · exact h entry hold
    · cases hp
      exact hfile

end Library

/-- All remembered targets are files. -/
def Library.TargetsAreFiles (d : Disk) (resolved : Memo Text Text) : Prop :=
  ∀ entry ∈ resolved.items, d.isFile entry.2 = true

/-! ## Tracking a compilation -/

namespace Compiler
variable {lib : Library} {d d' : Disk} {c : Compiler} {ε α β : Type}

/-- A loader over a disk without remembered trees; what it has resolved and listed are files. -/
inductive Cold (lib : Library) (d : Disk) : Loader → Prop
  | mk {resolved : Memo Text Text} {reads : List Text} {pending : List (Text × Source)}
    {files : List Text} (targets : Library.TargetsAreFiles d resolved)
    (listed : ∀ p ∈ files, d.isFile p = true) :
    Cold lib d ⟨⟨d, lib.withResolved resolved, reads⟩, pending, files⟩

/-- The loader over another disk. -/
def Loader.onDisk (l : Loader) (d : Disk) : Loader := { l with world := { l.world with disk := d } }

/-- The listed files are those of the loaded trees, each once. -/
def Loader.Settled (l : Loader) : Prop := l.files = l.pending.map Prod.fst ∧ l.files.Nodup

/-- What a computation `m` does to the list of files, and that on a second disk, which agrees on the
files listed at the end, the computation `n` goes the same way. -/
structure Tracked (lib : Library) (d d' : Disk) (m n : Loader → Except ε α × Loader) (l : Loader) :
    Prop where
  cold : Cold lib d (m l).2
  grows : l.files <+: (m l).2.files
  nodup : (m l).2.files.Nodup
  settled : ∀ a, (m l).1 = .ok a → (m l).2.Settled
  agrees : (∀ p ∈ (m l).2.files, lib.Agree d d' p) →
    n (l.onDisk d') = ((m l).1, (m l).2.onDisk d')

/-- The same of a run whose outcome is known. -/
theorem Tracked.of_run {m n : Loader → Except ε α × Loader} {l l' : Loader} {result : Except ε α}
    (hrun : m l = (result, l')) (cold : Cold lib d l') (grows : l.files <+: l'.files)
    (nodup : l'.files.Nodup) (settled : ∀ a, result = .ok a → l'.Settled)
    (agrees : (∀ p ∈ l'.files, lib.Agree d d' p) → n (l.onDisk d') = (result, l'.onDisk d')) :
    Tracked lib d d' m n l := by
  have hresult : (m l).1 = result := congrArg Prod.fst hrun
  have hloader : (m l).2 = l' := congrArg Prod.snd hrun
  subst hresult hloader
  exact ⟨cold, grows, nodup, settled, agrees⟩

/-- A computation is tracked from every loader in which nothing has failed. -/
def Tracks (lib : Library) (d d' : Disk) (m n : Loader → Except ε α × Loader) : Prop :=
  ∀ l, Cold lib d l → l.Settled → Tracked lib d d' m n l

theorem tracks_bind {m n : Expand.Run Loader α} {f g : α → Expand.Run Loader β}
    (h : Tracks lib d d' m.run n.run) (hf : ∀ a, Tracks lib d d' (f a).run (g a).run) :
    Tracks lib d d' (m >>= f).run (n >>= g).run := by
  intro l hcold hsettled
  obtain ⟨cold, grows, nodup, settled, agrees⟩ := h l hcold hsettled
  have hrun := Expand.run_bind m f l
  rcases hm : m.run l with ⟨result, l₁⟩
  rw [hm] at cold grows nodup settled agrees hrun
  cases result with
  | error stop =>
    refine .of_run hrun cold grows nodup nofun fun hagree => ?_
    rw [Expand.run_bind, agrees hagree]
  | ok a =>
    have rest := hf a l₁ cold (settled a rfl)
    refine .of_run hrun rest.cold (grows.trans rest.grows) rest.nodup rest.settled fun hagree => ?_
    -- what was listed before is listed at the end
    rw [Expand.run_bind, agrees fun p hp => hagree p (rest.grows.subset hp)]
    exact rest.agrees hagree

theorem tracks_locating {m n : Expand.Run Loader α} (pos : Position)
    (h : Tracks lib d d' m.run n.run) :
    Tracks lib d d' (Expand.locating pos m).run (Expand.locating pos n).run := by
  intro l hcold hsettled
  obtain ⟨cold, grows, nodup, settled, agrees⟩ := h l hcold hsettled
  refine .of_run (Expand.run_locating pos m l) cold grows nodup ?_ ?_
  · intro a ha
    cases hm : (m.run l).1 with
    | ok b => exact settled b hm
    | error stop =>
      rw [hm] at ha
      cases ha
  · intro hagree
    rw [Expand.run_locating, agrees hagree]

theorem compatible_tracks (lib : Library) (d d' : Disk) :
    Expand.Compatible fun _ _ m n => Tracks lib d d' m.run n.run where
  pure _ := fun _ hcold hsettled =>
    ⟨hcold, List.prefix_refl _, hsettled.2, fun _ _ => hsettled, fun _ => rfl⟩
  throw _ := fun _ hcold hsettled =>
    ⟨hcold, List.prefix_refl _, hsettled.2, nofun, fun _ => rfl⟩
  bind := tracks_bind
  locating := tracks_locating

/-! ## Loading -/

/-- Without remembered trees there is none to find. -/
theorem cachedTree_cold (htrees : lib.trees.items = []) (resolved : Memo Text Text)
    (reads : List Text) (p : Text) :
    c.cachedTree ⟨d, lib.withResolved resolved, reads⟩ p =
      (none, ⟨d, lib.withResolved resolved, reads⟩) := by
  have hget : (lib.withResolved resolved).getCached d p = (none, lib.withResolved resolved) := by
    have hlookup : lib.trees.items.lookup p = none := by rw [htrees, List.lookup_nil]
    have hnone : lib.trees.get? p = (none, lib.trees) :=
      Prod.ext ((Recent.laws.answer p _).trans hlookup) (Recent.laws.miss p _ hlookup)
    unfold Library.getCached
    rw [show (lib.withResolved resolved).trees = lib.trees from rfl, hnone]
    rfl
  rw [cachedTree]
  split
  · rw [hget]
  · rfl

theorem Loader.files_note (l : Loader) (p : Text) (w : World) (tree : Except Fault Source) :
    (l.note p w tree).2.files = l.files ++ [p] := by
  cases tree <;> rfl

theorem load_cold (htrees : lib.trees.items = []) {resolved : Memo Text Text}
    {reads files : List Text} {pending : List (Text × Source)} {p : Text}
    (hpending : pending.lookup p = none) :
    c.load p ⟨⟨d, lib.withResolved resolved, reads⟩, pending, files⟩ =
      Loader.note ⟨⟨d, lib.withResolved resolved, reads⟩, pending, files⟩ p
        ⟨d, lib.withResolved resolved, reads ++ [p]⟩ (lib.treeAt c.propertySyntax d p) := by
  rw [@load_of_none c p ⟨_, pending, files⟩ _ hpending (cachedTree_cold htrees resolved reads p),
    Library.treeAt_withResolved]
  rfl

/-- **Loading a file** lists it, unless it has been loaded before. -/
theorem load_tracks (htrees : lib.trees.items = []) {p : Text} (hfile : d.isFile p = true) :
    Tracks lib d d' (c.load p) (c.load p) := by
  rintro _ @⟨resolved, reads, pending, files, targets, listed⟩ ⟨hfiles, hnodup⟩
  dsimp only at hfiles hnodup
  cases hpending : pending.lookup p with
  | some source =>
    have hload (d : Disk) : c.load p ⟨⟨d, lib.withResolved resolved, reads⟩, pending, files⟩ =
        (.ok source, ⟨⟨d, lib.withResolved resolved, reads⟩, pending, files⟩) := by
      rw [load, hpending]
    exact .of_run (hload d) (.mk targets listed) (List.prefix_refl _) hnodup
      (fun _ _ => ⟨hfiles, hnodup⟩) fun _ => hload d'
  | none =>
    have hload (d : Disk) := @load_cold lib d c htrees resolved reads files pending p hpending
    have hnew : p ∉ files := by
      intro hmem
      rw [hfiles] at hmem
      obtain ⟨entry, hentry, rfl⟩ := List.mem_map.mp hmem
      have := List.lookup_eq_none_iff.mp hpending entry hentry
      simp at this
    have hlisted : ∀ q ∈ files ++ [p], d.isFile q = true := by
      intro q hq
      rcases List.mem_append.mp hq with hq | hq
      · exact listed q hq
      · rw [List.mem_singleton.mp hq]
        exact hfile
    have hnodup' : (files ++ [p]).Nodup := by
      rw [List.nodup_append]
      refine ⟨hnodup, List.nodup_singleton p, ?_⟩
      rintro a ha b hb rfl
      exact hnew (List.mem_singleton.mp hb ▸ ha)
    have hmoved (hagree : ∀ q ∈ files ++ [p], lib.Agree d d' q) :
        lib.treeAt c.propertySyntax d' p = lib.treeAt c.propertySyntax d p :=
      (Library.treeAt_eq (hagree p (List.mem_append_right files List.mem_cons_self))).symm
    cases htree : lib.treeAt c.propertySyntax d p with
    | ok source =>
      refine .of_run ((hload d).trans (by rw [htree]; rfl)) (.mk targets hlisted)
        (List.prefix_append _ _) hnodup' (fun _ _ => ⟨?_, hnodup'⟩)
        fun hagree => (hload d').trans (by rw [hmoved hagree, htree]; rfl)
      show files ++ [p] = (pending ++ [(p, source)]).map Prod.fst
      rw [List.map_append, hfiles]
      rfl
    | error fault =>
      exact .of_run ((hload d).trans (by rw [htree]; rfl)) (.mk targets hlisted)
        (List.prefix_append _ _) hnodup' (fun _ h => by cases h)
        fun hagree => (hload d').trans (by rw [hmoved hagree, htree]; rfl)

/-- Resolving a target leaves the loader cold, and goes the same way on a disk with the same
paths. -/
theorem resolve_cold (hlib : lib.InMemory) (hd : d.SamePaths d') (uri file : Text)
    {resolved : Memo Text Text} (targets : Library.TargetsAreFiles d resolved)
    (reads : List Text) :
    ∃ result resolved', Library.TargetsAreFiles d resolved' ∧
      (∀ p, result = .ok p → d.isFile p = true) ∧
      World.resolve ⟨d, lib.withResolved resolved, reads⟩ uri file =
        (result, ⟨d, lib.withResolved resolved', reads⟩) ∧
      World.resolve ⟨d', lib.withResolved resolved, reads⟩ uri file =
        (result, ⟨d', lib.withResolved resolved', reads⟩) := by
  obtain ⟨resolved', hresolved, targets', hfile⟩ :=
    hlib.resolveCached (fun _ h => h) targets uri file
  have hsame : (lib.withResolved resolved).resolveCached d' uri file =
      (lib.withResolved resolved).resolveCached d uri file := by
    unfold Library.resolveCached
    rw [Library.resolve_eq hd]
  refine ⟨_, resolved', targets', hfile, ?_, ?_⟩
  · rw [World.resolve, ← hresolved]
  · rw [World.resolve, hsame, ← hresolved]

/-- **Loading an import** goes the same way on a second disk with the same paths. -/
theorem loading_tracks (hlib : lib.InMemory) (htrees : lib.trees.items = [])
    (hd : d.SamePaths d') (uri file : Text) :
    Tracks lib d d' (Expand.loading c.importer uri file).run
      (Expand.loading c.importer uri file).run := by
  rintro _ @⟨resolved, reads, pending, files, targets, listed⟩ hsettled
  obtain ⟨result, resolved', targets', hfile, hresolve, hresolve'⟩ :=
    resolve_cold hlib hd uri file targets reads
  cases result with
  | error fault =>
    have hrun {d₁ : Disk} (h : World.resolve ⟨d₁, lib.withResolved resolved, reads⟩ uri file =
        (.error fault, ⟨d₁, lib.withResolved resolved', reads⟩)) :
        (Expand.loading c.importer uri file).run
          ⟨⟨d₁, lib.withResolved resolved, reads⟩, pending, files⟩ =
        (.error (.fault (.tagged ("import " ++ uri) fault)),
          ⟨⟨d₁, lib.withResolved resolved', reads⟩, pending, files⟩) := by
      simp only [Expand.loading, ExceptT.run, importer, loadImport, h]
    exact .of_run (hrun hresolve) (.mk targets' listed) (List.prefix_refl _) hsettled.2
      (fun _ h => by cases h) fun _ => hrun hresolve'
  | ok p =>
    have hrun {d₁ : Disk} (h : World.resolve ⟨d₁, lib.withResolved resolved, reads⟩ uri file =
        (.ok p, ⟨d₁, lib.withResolved resolved', reads⟩)) {tree : Except Fault Source} {l : Loader}
        (hload : c.load p ⟨⟨d₁, lib.withResolved resolved', reads⟩, pending, files⟩ = (tree, l)) :
        (Expand.loading c.importer uri file).run
          ⟨⟨d₁, lib.withResolved resolved, reads⟩, pending, files⟩ =
        ((tree.map fun source => (source, p)).mapError .fault, l) := by
      simp only [Expand.loading, ExceptT.run, importer, loadImport, h, hload]
      cases tree <;> rfl
    have load : Tracks lib d d' (c.load p) (c.load p) := load_tracks htrees (hfile p rfl)
    obtain ⟨cold, grows, nodup, settled, agrees⟩ :=
      load ⟨⟨d, lib.withResolved resolved', reads⟩, pending, files⟩ (.mk targets' listed) hsettled
    rcases hload : c.load p ⟨⟨d, lib.withResolved resolved', reads⟩, pending, files⟩ with ⟨tree, l⟩
    rw [hload] at cold grows nodup settled agrees
    refine .of_run (hrun hresolve hload) cold grows nodup ?_
      fun hagree => hrun hresolve' (agrees hagree)
    intro a ha
    cases tree with
    | ok source => exact settled source rfl
    | error fault => cases ha

theorem settings_tracks (hlib : lib.InMemory) (htrees : lib.trees.items = [])
    (hd : d.SamePaths d') :
    Expand.SettingsRelated (fun _ _ m n => Tracks lib d d' m.run n.run) c.settings c.settings :=
  ⟨rfl, rfl, .some ((compatible_tracks lib d d').loadingRelated (loading_tracks hlib htrees hd))⟩

theorem source_tracks (hlib : lib.InMemory) (htrees : lib.trees.items = [])
    (hd : d.SamePaths d') (file : Text) (source : Source) :
    Tracks lib d d' (Expand.source c.settings c.fuel file source).run
      (Expand.source c.settings c.fuel file source).run :=
  Expand.source_related (compatible_tracks lib d d') (settings_tracks hlib htrees hd) c.fuel file
    source

/-! ## Compiling a file -/

/-- Loads a file in the course of an expansion. -/
def loadingFile (c : Compiler) (p : Text) : Expand.Run Loader Source := fun l =>
  ((c.load p l).1.mapError .fault, (c.load p l).2)

/-- Loads a file and expands its tree. -/
def expandFile (c : Compiler) (p : Text) : Expand.Run Loader (List Css) := do
  let source ← c.loadingFile p
  Expand.source c.settings c.fuel p source

/-- Compiling a file is expanding it, but for the style and for what is handed to the library. -/
theorem compileFile_of_resolve {w w' : World} {path p : Text}
    (hresolve : w.resolve path [] = (.ok p, w')) :
    (c.compileFile path w).1 = ⟨((c.expandFile p).run (.start w')).1.map c.style.render,
      ((c.expandFile p).run (.start w')).2.files⟩ := by
  have hload : (c.loadingFile p).run (.start w') =
      ((c.load p (.start w')).1.mapError .fault, (c.load p (.start w')).2) := rfl
  rw [compileFile, hresolve, expandFile, Expand.run_bind, hload]
  dsimp only
  rcases c.load p (.start w') with ⟨tree, l⟩
  cases tree with
  | error fault => rfl
  | ok source =>
    dsimp only [Except.mapError]
    rw [render]
    rcases (Expand.source c.settings c.fuel p source).run l with ⟨css, l'⟩
    cases css <;> rfl

theorem expandFile_tracks (hlib : lib.InMemory) (htrees : lib.trees.items = [])
    (hd : d.SamePaths d') {p : Text} (hfile : d.isFile p = true) :
    Tracks lib d d' (c.expandFile p).run (c.expandFile p).run := by
  refine tracks_bind ?_ fun source => source_tracks hlib htrees hd p source
  intro l hcold hsettled
  have load : Tracks lib d d' (c.load p) (c.load p) := load_tracks htrees hfile
  obtain ⟨cold, grows, nodup, settled, agrees⟩ := load l hcold hsettled
  refine ⟨cold, grows, nodup, ?_, ?_⟩
  · intro source hsource
    cases htree : (c.load p l).1 with
    | ok tree => exact settled tree htree
    | error fault =>
      have hstop : (c.loadingFile p).run l = ((c.load p l).1.mapError .fault, (c.load p l).2) := rfl
      rw [hstop, htree] at hsource
      cases hsource
  · intro hagree
    have hmoved := agrees hagree
    show ((c.load p (l.onDisk d')).1.mapError Expand.Stop.fault, (c.load p (l.onDisk d')).2) = _
    rw [hmoved]
    rfl

/-- The first file that is listed is the one to expand. -/
theorem expandFile_head? (hlib : lib.InMemory) (htrees : lib.trees.items = []) {p : Text}
    (hfile : d.isFile p = true) {resolved : Memo Text Text}
    (targets : Library.TargetsAreFiles d resolved) (reads : List Text) :
    ((c.expandFile p).run (.start ⟨d, lib.withResolved resolved, reads⟩)).2.files.head? =
      some p := by
  have hload := @load_cold lib d c htrees resolved reads [] [] p rfl
  have hstart : Cold lib d (.start ⟨d, lib.withResolved resolved, reads⟩) :=
    .mk targets (List.forall_mem_nil _)
  have load : Tracks lib d d (c.load p) (c.load p) := load_tracks htrees hfile
  obtain ⟨cold, -, -, settled, -⟩ := load _ hstart ⟨rfl, List.nodup_nil⟩
  rw [Loader.start] at cold settled ⊢
  have hrun : (c.loadingFile p).run ⟨⟨d, lib.withResolved resolved, reads⟩, [], []⟩ =
      ((c.load p ⟨⟨d, lib.withResolved resolved, reads⟩, [], []⟩).1.mapError .fault,
        (c.load p ⟨⟨d, lib.withResolved resolved, reads⟩, [], []⟩).2) := rfl
  rw [expandFile, Expand.run_bind, hrun]
  rcases htree : c.load p ⟨⟨d, lib.withResolved resolved, reads⟩, [], []⟩ with ⟨tree, l⟩
  have hfiles : l.files = [p] := by
    have := congrArg (fun result => result.2.files) (htree.symm.trans hload)
    rwa [Loader.files_note] at this
  rw [htree] at cold settled
  cases tree with
  | error fault =>
    show l.files.head? = some p
    rw [hfiles]
    rfl
  | ok source =>
    have hsource : Tracks lib d d (Expand.source c.settings c.fuel p source).run
        (Expand.source c.settings c.fuel p source).run :=
      source_tracks hlib htrees ⟨fun _ => .rfl, fun _ => .rfl, rfl⟩ p source
    obtain ⟨more, hmore⟩ := (hsource l cold (settled source rfl)).grows
    show ((Expand.source c.settings c.fuel p source).run l).2.files.head? = some p
    rw [← hmore, hfiles]
    rfl

/-- **The listed files are all that matters.** For a library in memory that remembers no trees and
whose remembered targets are files: the list of a compiled file has no duplicates, names files only
and starts with the file itself, and a second disk with the same paths, on which the listed files
read the same, gives the same style sheet or fault and the same list. -/
theorem compileFile_tracked (hlib : lib.InMemory) (htrees : lib.trees.items = [])
    (htargets : Library.TargetsAreFiles d lib.resolved) (hd : d.SamePaths d') (path : Text) :
    let compiled := (c.compileFile path ⟨d, lib, []⟩).1
    compiled.files.Nodup ∧ (∀ p ∈ compiled.files, d.isFile p = true) ∧
      compiled.files.head? = (World.resolve ⟨d, lib, []⟩ path []).1.toOption ∧
      ((∀ p ∈ compiled.files, lib.Agree d d' p) →
        (c.compileFile path ⟨d', lib, []⟩).1 = compiled) := by
  intro compiled
  obtain ⟨result, resolved', targets', hfile, hresolve, hresolve'⟩ :=
    resolve_cold hlib hd path [] htargets []
  have hlib₀ : lib.withResolved lib.resolved = lib := rfl
  rw [hlib₀] at hresolve hresolve'
  cases result with
  | error fault =>
    have hcompiled (d₁ : Disk) (h : World.resolve ⟨d₁, lib, []⟩ path [] =
        (.error fault, ⟨d₁, lib.withResolved resolved', []⟩)) :
        (c.compileFile path ⟨d₁, lib, []⟩).1 = ⟨.error (.fault fault), []⟩ := by
      rw [compileFile, h]
    have hnone : compiled = ⟨.error (.fault fault), []⟩ := hcompiled d hresolve
    rw [hnone, hresolve]
    exact ⟨List.nodup_nil, List.forall_mem_nil _, rfl, fun _ => hcompiled d' hresolve'⟩
  | ok p =>
    have hstart : Cold lib d (.start ⟨d, lib.withResolved resolved', []⟩) :=
      .mk targets' (List.forall_mem_nil _)
    have tracked := expandFile_tracks (c := c) hlib htrees hd (hfile p rfl) _ hstart
      ⟨rfl, List.nodup_nil⟩
    have hhead := expandFile_head? (c := c) hlib htrees (hfile p rfl) targets' []
    have hcompiled : compiled = _ := compileFile_of_resolve hresolve
    rw [hcompiled, compileFile_of_resolve hresolve', hresolve]
    refine ⟨tracked.nodup, ?_, hhead, ?_⟩
    · have hcold := tracked.cold
      intro q hq
      generalize ((c.expandFile p).run (.start ⟨d, lib.withResolved resolved', []⟩)).2 = l
        at hcold hq
      obtain ⟨-, listed⟩ := hcold
      exact listed q hq
    · intro hagree
      have hmoved := tracked.agrees hagree
      show Compiled.mk (((c.expandFile p).run _).1.map _) _ = _
      rw [show Loader.start ⟨d', lib.withResolved resolved', []⟩ =
        (Loader.start ⟨d, lib.withResolved resolved', []⟩).onDisk d' from rfl, hmoved]
      rfl

/-- **The list of files is complete.** Over any disk in memory and with nothing remembered, the list
of a compiled file has no duplicates and starts with the resolved file (it is empty if there is
none). A second disk with files at the same paths, which agrees on the texts of the listed files
and has any texts and times elsewhere, gives the same style sheet or the same fault, and the same
list. It does not matter what makes room for what in the library on the way. -/
theorem compileFile_depends_on_listed (c : Compiler) (o : LibraryOptions)
    (choices : Library.Choices) (d d' : Disk) (path : Text) (hd : d.isNative = false)
    (hd' : d'.isNative = false) (hfiles : ∀ p, p ∈ d.files.map Prod.fst ↔ p ∈ d'.files.map Prod.fst)
    (hdirs : ∀ p, p ∈ d.dirs ↔ p ∈ d'.dirs) :
    let lib := (Library.inMemory o).choosing choices
    let compiled := (c.compileFile path ⟨d, lib, []⟩).1
    compiled.files.Nodup ∧
      compiled.files.head? = ((Library.inMemory o).resolve d path []).toOption ∧
      ((∀ p ∈ compiled.files, (d.file? p).map File.text = (d'.file? p).map File.text) →
        (c.compileFile path ⟨d', lib, []⟩).1 = compiled) := by
  intro lib compiled
  have hpaths : d.SamePaths d' := ⟨hfiles, hdirs, hd.trans hd'.symm⟩
  have hlib : lib.InMemory := ⟨rfl, rfl⟩
  obtain ⟨hnodup, hlisted, hhead, hsame⟩ :=
    compileFile_tracked (c := c) hlib rfl (List.forall_mem_nil _) hpaths path
  refine ⟨hnodup, ?_, fun htext => hsame fun p hp => hlib.agree hpaths (hlisted p hp) (htext p hp)⟩
  refine hhead.trans (congrArg Except.toOption ?_)
  show (lib.resolved.getOrCompute (Library.resolveKey path []) fun _ =>
    (Library.inMemory o).resolve d path []).1 = _
  have hends := lib.resolved.ends (Library.resolveKey path []) fun _ =>
    (Library.inMemory o).resolve d path []
  generalize (lib.resolved.getOrCompute (Library.resolveKey path []) fun _ =>
    (Library.inMemory o).resolve d path []) = answer at hends
  cases hends with
  | stored hget => cases hget
  | failed _ hresolve | computed _ hresolve => exact hresolve.symm

/-- A file that is imported only under a test that fails is not listed. On the second disk its text
cannot even be read, the files stand in another order, and all times are different. -/
theorem compileFile_depends_on_listed_unused :
    let d : Disk := ⟨[("a.sass", ⟨"@import b\n@if 1 == 2\n  @import c\n", 1⟩),
      ("b.sass", ⟨"p\n  q: r\n", 1⟩), ("c.sass", ⟨"x\n  y: z\n", 1⟩)], [], false⟩
    let d' : Disk := ⟨[("c.sass", ⟨"x\n     y\n  z\n", 7⟩), ("b.sass", ⟨"p\n  q: r\n", 8⟩),
      ("a.sass", ⟨"@import b\n@if 1 == 2\n  @import c\n", 9⟩)], [], false⟩
    let compiled := (plainCompiler.compileFile "a.sass" ⟨d, .inMemory plainLibrary, []⟩).1
    compiled.files = ["a.sass", "b.sass"] ∧
      (∀ p ∈ compiled.files, (d.file? p).map File.text = (d'.file? p).map File.text) ∧
      (plainCompiler.compileFile "a.sass" ⟨d', .inMemory plainLibrary, []⟩).1 = compiled := by
  intro d d' compiled
  have hlist : compiled.files = ["a.sass", "b.sass"] := by decide +kernel
  have hagree : ∀ p ∈ compiled.files, (d.file? p).map File.text = (d'.file? p).map File.text := by
    rw [hlist]
    decide +kernel
  have hperm : (d.files.map Prod.fst).Perm (d'.files.map Prod.fst) := by decide +kernel
  have hdepends := compileFile_depends_on_listed plainCompiler plainLibrary .plain d d' "a.sass" rfl
    rfl (fun _ => hperm.mem_iff) (fun _ => .rfl)
  rw [Library.choosing_plain] at hdepends
  obtain ⟨-, -, hsame⟩ := hdepends
  exact ⟨hlist, hagree, hsame hagree⟩

end Compiler

end IndentedSass
