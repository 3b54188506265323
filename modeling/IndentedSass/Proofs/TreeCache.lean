import IndentedSass.Compiler
import IndentedSass.Proofs.Lockstep

/-!
# Remembered trees make no difference

A compiler that keeps parsed trees gives the same answers as one that parses every file anew. This
module follows a *session*, in which files are written and removed between compilations, and runs
it with and without remembered trees.

The invariant is `Library.Remembers`: a remembered tree was parsed from a text that its file had
under the stored time. It serves the current text as long as `Disk.Keeps` holds between the disks of
the session: a path that shows an old time again shows the old text again. Among files it is enough
that texts of one path never share a time (`OneText`). But a directory has a time as well, always
the same one, and so `NoLateDirectory` has to be asked for, too.

Within one compilation the disk does not change. Compilations with and without remembered trees run
in lockstep there, in loaders that differ in nothing but these trees (`Compiler.LoadersAlike`).
-/

namespace IndentedSass

/-! ## Sessions -/

/-- What can happen in a session. -/
inductive Act where
  | write (path : Text) (file : File)
  | remove (path : Text)
  /-- The library loses the trees of some files. -/
  | forget (keep : Text → Bool)
  | compile (source : Text)
  | compileFile (path : Text)

namespace Act

/-- The disk after an act. -/
def onDisk (d : Disk) : Act → Disk
  | write path file => d.write path file
  | remove path => d.remove path
  | forget _ | compile _ | compileFile _ => d

/-- The answer to an act, if it is a compilation, and the world after it. -/
def run (c : Compiler) (w : World) : Act → Option Compiler.Compiled × World
  | write path file => (none, { w with disk := w.disk.write path file })
  | remove path => (none, { w with disk := w.disk.remove path })
  | forget keep =>
    let items := w.library.trees.items.filter fun entry => keep entry.1
    (none, { w with library := { w.library with trees := { w.library.trees with items } } })
  | compile source =>
    let (css, w) := c.compile source w
    (some ⟨css, []⟩, w)
  | compileFile path =>
    let (compiled, w) := c.compileFile path w
    (some compiled, w)

end Act

/-- The answers of a session. -/
def answers (c : Compiler) : World → List Act → List Compiler.Compiled
  | _, [] => []
  | w, act :: acts => (act.run c w).1.toList ++ answers c (act.run c w).2 acts

/-- The disks of a session, from the first to the last. -/
def disks : Disk → List Act → List Disk
  | d, [] => [d]
  | d, act :: acts => d :: disks (act.onDisk d) acts

/-- No path carries two different texts under the same time. -/
def OneText (history : List Disk) : Prop :=
  ∀ d ∈ history, ∀ d' ∈ history, ∀ entry ∈ d.files, ∀ entry' ∈ d'.files,
    entry.1 = entry'.1 → entry.2.mtime = entry'.2.mtime → entry.2.text = entry'.2.text

/-- No path at which a file had the time of directories is a directory later. -/
def NoLateDirectory (history : List Disk) : Prop :=
  history.Pairwise fun d d' =>
    ∀ entry ∈ d.files, entry.2.mtime = Disk.noTime → d'.look entry.1 ≠ .dir

instance (history : List Disk) : Decidable (OneText history) :=
  inferInstanceAs (Decidable (∀ d ∈ history, ∀ d' ∈ history, ∀ entry ∈ d.files, ∀ entry' ∈ d'.files,
    entry.1 = entry'.1 → entry.2.mtime = entry'.2.mtime → entry.2.text = entry'.2.text))

instance (history : List Disk) : Decidable (NoLateDirectory history) :=
  inferInstanceAs (Decidable (history.Pairwise fun d d' =>
    ∀ entry ∈ d.files, entry.2.mtime = Disk.noTime → d'.look entry.1 ≠ .dir))

/-- The compiler with its use of remembered trees turned on or off. -/
def Compiler.caching (c : Compiler) (on : Bool) : Compiler :=
  { c with options := { c.options with cache := on } }

/-! ## Caches of recent entries -/

namespace Recent
variable {κ υ : Type} [BEq κ] {k : κ} {v : υ} {c : Recent κ υ}

/-- The laws of a cache that loses entries as it likes. An answer comes from the entries, and asking
changes none of them; storing brings in nothing but the stored entry; removing takes nothing away
but the key. All that is said here of remembered trees and sheets rests on these laws. -/
structure Laws (get? : κ → Recent κ υ → Option υ × Recent κ υ)
    (add : κ → υ → Recent κ υ → Recent κ υ) (erase : κ → Recent κ υ → Recent κ υ) : Prop where
  answer : ∀ k c, (get? k c).1 = c.items.lookup k
  miss : ∀ k c, c.items.lookup k = none → (get? k c).2 = c
  lookup_get : ∀ k c key, (get? k c).2.items.lookup key = c.items.lookup key
  mem_get : ∀ k c, ∀ entry ∈ (get? k c).2.items, entry ∈ c.items
  mem_add : ∀ k v c, ∀ entry ∈ (add k v c).items, entry = (k, v) ∨ entry ∈ c.items
  lookup_erase : ∀ k c key, key ≠ k → (erase k c).items.lookup key = c.items.lookup key
  mem_erase : ∀ k c, ∀ entry ∈ (erase k c).items, entry ∈ c.items

theorem mem_of_lookup [LawfulBEq κ] {items : List (κ × υ)} (h : items.lookup k = some v) :
    (k, v) ∈ items := by
  obtain ⟨before, after, rfl, -⟩ := List.lookup_eq_some_iff.mp h
  exact List.mem_append_right before List.mem_cons_self

theorem lookup_without [LawfulBEq κ] (k key : κ) (items : List (κ × υ)) :
    (without k items).lookup key = if key == k then none else items.lookup key := by
  induction items with
  | nil => simp [without]
  | cons entry items ih =>
    obtain ⟨k', v⟩ := entry
    rw [without] at ih ⊢
    by_cases hk : k' = k
    · subst hk
      rw [List.filter_cons_of_neg (by simp), ih, List.lookup_cons]
      cases key == k' <;> rfl
    · rw [List.filter_cons_of_pos (by simp [hk]), List.lookup_cons, List.lookup_cons, ih]
      by_cases hkey : key = k'
      · simp [hkey, hk]
      · simp [beq_eq_false_iff_ne.mpr hkey]

/-- **The cache keeps the laws.** Asking and storing put an entry first, which says which one is
lost next, and no law is about that. -/
theorem laws [LawfulBEq κ] : Laws (@get? κ υ _) add erase where
  answer k c := by
    rw [get?]
    cases c.items.lookup k <;> rfl
  miss k c h := by rw [get?, h]
  lookup_get k c key := by
    rw [get?]
    cases hv : c.items.lookup k with
    | none => rfl
    | some v =>
      simp only [List.lookup_cons, lookup_without]
      by_cases hkey : key = k
      · simp [hkey, hv]
      · simp [beq_eq_false_iff_ne.mpr hkey]
  mem_get k c entry h := by
    rw [get?] at h
    cases hv : c.items.lookup k with
    | none =>
      rw [hv] at h
      exact h
    | some v =>
      rw [hv] at h
      rcases List.mem_cons.mp h with rfl | h
      · exact mem_of_lookup hv
      · exact (List.mem_filter.mp h).1
  mem_add k v c entry h := by
    rcases List.mem_cons.mp (List.mem_of_mem_take h) with h | h
    · exact .inl h
    · exact .inr (List.mem_filter.mp h).1
  lookup_erase k c key hkey := by
    rw [erase, lookup_without, if_neg (by simp [hkey])]
  mem_erase k c entry h := (List.mem_filter.mp h).1

theorem mem_of_get? [LawfulBEq κ] (h : (c.get? k).1 = some v) : (k, v) ∈ c.items := by
  rw [laws.answer] at h
  exact mem_of_lookup h

end Recent

/-! ## Disks -/

namespace Disk
variable {d d' : Disk} {path : Text}

theorem mem_files_of_look {f : File} (h : d.look path = .file f) : (path, f) ∈ d.files := by
  rw [look] at h
  split at h
  · split at h <;> cases h
  · split at h
    · rename_i f' hfile
      cases h
      exact Recent.mem_of_lookup hfile
    · split at h
      · cases h
      · split at h
        · cases h
        · split at h <;> cases h

/-- If a path shows the time of an old file again, it shows the old text again. -/
def Keeps (d d' : Disk) : Prop :=
  ∀ path f, d.look path = .file f → d'.modTime path = .ok f.mtime → d'.read path = .ok f.text

theorem keeps_refl (d : Disk) : Keeps d d := by
  intro path f hlook _
  rw [read, hlook]

theorem pairwise_keeps {history : List Disk} (htext : OneText history)
    (hdir : NoLateDirectory history) : history.Pairwise Keeps := by
  refine List.Pairwise.imp_of_mem ?_ hdir
  intro d d' hd hd' hlate path f hlook htime
  have hmem := mem_files_of_look hlook
  rw [modTime] at htime
  cases hlook' : d'.look path with
  | file f' =>
    rw [hlook'] at htime
    have hsame : f'.mtime = f.mtime := Except.ok.inj htime
    rw [read, hlook', htext d hd d' hd' _ hmem _ (mem_files_of_look hlook') rfl hsame.symm]
  | dir =>
    rw [hlook'] at htime
    exact absurd hlook' (hlate _ hmem (Except.ok.inj htime).symm)
  | missing | blocked | invalid | tooLong =>
    rw [hlook'] at htime
    cases htime

end Disk

/-! ## The invariant -/

namespace Library
variable {way : PropertySyntax} {seen : List Disk} {lib : Library} {d : Disk} {p : Text}

/-- The library with other remembered trees. -/
def withTrees (lib : Library) (trees : Recent Text CachedTree) : Library := { lib with trees }

/-- What is left open in a library: which resolved target makes room for the next one, and how the
trees of a compilation come in. -/
structure Choices where
  victims : Nat → Nat
  handOver : HandOver

/-- The library, if things come as chosen. -/
def choosing (lib : Library) (choices : Choices) : Library :=
  { lib with
    resolved := { lib.resolved with victims := choices.victims }
    handOver := choices.handOver }

/-- The first target makes room, and trees come in as they were loaded. -/
def Choices.plain : Choices := ⟨fun _ => 0, .asLoaded⟩

theorem choosing_plain (o : LibraryOptions) : (inMemory o).choosing .plain = inMemory o := rfl

/-- The tree that a file has on a disk. -/
def treeAt (way : PropertySyntax) (lib : Library) (d : Disk) (p : Text) : Except Fault Source :=
  match lib.read d p with
  | .ok text => Source.parse way text p 1
  | .error fault => .error fault

/-- A tree that was parsed from a text that its file had, at the noted time, on one of the disks. -/
def Saw (way : PropertySyntax) (seen : List Disk) (lib : Library) (p : Text) (entry : CachedTree) :
    Prop :=
  ∃ d ∈ seen, ∃ f, d.look (lib.toDisk p) = .file f ∧ f.mtime = entry.mtime ∧
    Source.parse way f.text p 1 = .ok entry.source

/-- Every remembered tree was seen on one of the disks so far. -/
def Remembers (way : PropertySyntax) (seen : List Disk) (lib : Library) : Prop :=
  ∀ p entry, (p, entry) ∈ lib.trees.items → lib.Saw way seen p entry

/-- Trees may be dropped, and further disks be seen. -/
theorem Remembers.mono {seen' : List Disk} {trees : Recent Text CachedTree}
    (h : lib.Remembers way seen) (hseen : ∀ d ∈ seen, d ∈ seen')
    (htrees : ∀ entry ∈ trees.items, entry ∈ lib.trees.items) :
    (lib.withTrees trees).Remembers way seen' := by
  intro p entry hentry
  obtain ⟨d, hd, hfile⟩ := h p entry (htrees _ hentry)
  exact ⟨d, hseen d hd, hfile⟩

theorem modTime_eq_ok {time : Int} :
    lib.modTime d p = .ok time ↔ d.modTime (lib.toDisk p) = .ok time := by
  unfold modTime
  cases d.modTime (lib.toDisk p) with
  | ok time' => simp only [Except.ok.injEq]
  | error fault => cases fault <;> exact ⟨nofun, nofun⟩

theorem read_eq_ok {text : Text} : lib.read d p = .ok text ↔ d.read (lib.toDisk p) = .ok text := by
  unfold read
  cases d.read (lib.toDisk p) with
  | ok text' => simp only [Except.ok.injEq]
  | error fault => cases fault <;> exact ⟨nofun, nofun⟩

/-- If the file has the noted time, the tree is current. -/
theorem Saw.treeAt {entry : CachedTree} (h : lib.Saw way seen p entry)
    (hkeeps : ∀ d₀ ∈ seen, Disk.Keeps d₀ d) (htime : lib.modTime d p = .ok entry.mtime) :
    lib.treeAt way d p = .ok entry.source := by
  obtain ⟨d₀, hd₀, f, hlook, hmtime, hparse⟩ := h
  rw [← hmtime, modTime_eq_ok] at htime
  have hread := read_eq_ok.mpr (hkeeps d₀ hd₀ _ f hlook htime)
  unfold Library.treeAt
  rw [hread]
  exact hparse

/-- What looking for a tree comes to: it brings in no trees, and what it finds is a remembered tree
with the time that the file shows. -/
theorem getCached_eq (lib : Library) (d : Disk) (p : Text) :
    ∃ found trees, lib.getCached d p = (found, lib.withTrees trees) ∧
      (∀ entry ∈ trees.items, entry ∈ lib.trees.items) ∧
      ∀ source, found = some source → ∃ entry, (p, entry) ∈ lib.trees.items ∧
        entry.source = source ∧ lib.modTime d p = .ok entry.mtime := by
  have hget := Recent.laws.mem_get p lib.trees
  have herase : ∀ entry ∈ ((lib.trees.get? p).2.erase p).items, entry ∈ lib.trees.items :=
    fun entry hentry => hget entry (Recent.laws.mem_erase p _ entry hentry)
  have hfound : ∀ entry, (lib.trees.get? p).1 = some entry → (p, entry) ∈ lib.trees.items :=
    fun _ => Recent.mem_of_get?
  unfold Library.getCached
  rcases hresult : lib.trees.get? p with ⟨found, trees⟩
  rw [hresult] at hget herase hfound
  cases found with
  | none => exact ⟨_, trees, rfl, hget, nofun⟩
  | some entry =>
    cases htime : lib.modTime d p with
    | error fault => exact ⟨_, trees.erase p, rfl, herase, nofun⟩
    | ok time =>
      dsimp only
      split
      · rename_i hsame
        refine ⟨_, trees, rfl, hget, fun source hsource => ?_⟩
        exact ⟨entry, hfound entry rfl, Option.some.inj hsource, congrArg Except.ok hsame⟩
      · exact ⟨_, trees.erase p, rfl, herase, nofun⟩

/-- **What is found among the remembered trees is current**, and looking spoils nothing. -/
theorem Remembers.getCached (h : lib.Remembers way seen)
    (hkeeps : ∀ d₀ ∈ seen, Disk.Keeps d₀ d) (p : Text) :
    ∃ found trees, lib.getCached d p = (found, lib.withTrees trees) ∧
      (lib.withTrees trees).Remembers way seen ∧
      ∀ source, found = some source → lib.treeAt way d p = .ok source := by
  obtain ⟨found, trees, hget, htrees, hfound⟩ := lib.getCached_eq d p
  refine ⟨found, trees, hget, h.mono (fun _ hd => hd) htrees, fun source hsource => ?_⟩
  obtain ⟨entry, hentry, rfl, htime⟩ := hfound source hsource
  exact (h p entry hentry).treeAt hkeeps htime

theorem exists_file_of_treeAt {source : Source} (h : lib.treeAt way d p = .ok source) :
    ∃ f, d.look (lib.toDisk p) = .file f ∧ Source.parse way f.text p 1 = .ok source := by
  unfold Library.treeAt at h
  cases hread : lib.read d p with
  | error fault =>
    rw [hread] at h
    cases h
  | ok text =>
    rw [hread] at h
    have hdisk := read_eq_ok.mp hread
    rw [Disk.read] at hdisk
    cases hlook : d.look (lib.toDisk p) with
    | file f =>
      rw [hlook] at hdisk
      cases hdisk
      exact ⟨f, rfl, h⟩
    | dir | missing | blocked | invalid | tooLong =>
      rw [hlook] at hdisk
      cases hdisk

/-- A current tree has been seen. -/
theorem saw_of_treeAt {source : Source} {time : Int} (hd : d ∈ seen)
    (htree : lib.treeAt way d p = .ok source) (htime : lib.modTime d p = .ok time) :
    lib.Saw way seen p ⟨source, time⟩ := by
  obtain ⟨f, hlook, hparse⟩ := exists_file_of_treeAt htree
  rw [modTime_eq_ok, Disk.modTime, hlook] at htime
  exact ⟨d, hd, f, hlook, Except.ok.inj htime, hparse⟩

/-- A tree that was seen may be remembered. -/
theorem Remembers.putCached (h : lib.Remembers way seen) {source : Source}
    (hsaw : ∀ time, lib.modTime d p = .ok time → lib.Saw way seen p ⟨source, time⟩) :
    ∃ trees, lib.putCached d p source = lib.withTrees trees ∧
      (lib.withTrees trees).Remembers way seen := by
  unfold Library.putCached
  cases htime : lib.modTime d p with
  | error fault => exact ⟨lib.trees, rfl, h⟩
  | ok time =>
    refine ⟨_, rfl, fun p' entry hentry => ?_⟩
    rcases Recent.laws.mem_add _ _ _ _ hentry with hnew | hold
    · cases hnew
      exact hsaw time htime
    · exact h p' entry hold

end Library

/-! ## One compilation -/

/-- Two worlds over one disk that differ in what was read and in the remembered trees; those of the
first were seen. -/
inductive WorldsAlike (way : PropertySyntax) (seen : List Disk) (d : Disk) : World → World → Prop
  | mk {lib : Library} {trees : Recent Text CachedTree} {reads reads' : List Text}
    (remembers : (lib.withTrees trees).Remembers way seen) :
    WorldsAlike way seen d ⟨d, lib.withTrees trees, reads⟩ ⟨d, lib, reads'⟩

namespace Compiler
variable {way : PropertySyntax} {seen : List Disk} {d : Disk} {c : Compiler}

@[simp] theorem caching_fuel (on : Bool) : (c.caching on).fuel = c.fuel := rfl

@[simp] theorem caching_style (on : Bool) : (c.caching on).style = c.style := rfl

@[simp] theorem caching_parse (on : Bool) (source : Text) :
    (c.caching on).parse source = c.parse source := rfl

/-- Two loaders in such worlds that have loaded the same files; the loaded trees are current. -/
inductive LoadersAlike (way : PropertySyntax) (seen : List Disk) (d : Disk) :
    Loader → Loader → Prop
  | mk {lib : Library} {trees : Recent Text CachedTree} {reads reads' : List Text}
    {pending : List (Text × Source)} {files : List Text}
    (remembers : (lib.withTrees trees).Remembers way seen)
    (current : ∀ p source, (p, source) ∈ pending → lib.treeAt way d p = .ok source) :
    LoadersAlike way seen d ⟨⟨d, lib.withTrees trees, reads⟩, pending, files⟩
      ⟨⟨d, lib, reads'⟩, pending, files⟩

theorem loadersAlike_start {w w' : World} (h : WorldsAlike way seen d w w') :
    LoadersAlike way seen d (.start w) (.start w') := by
  obtain ⟨remembers⟩ := h
  exact .mk remembers nofun

/-- Notes a file, and its tree if it has one. -/
def Loader.note (l : Loader) (p : Text) (w : World) :
    Except Fault Source → Except Fault Source × Loader
  | .ok source => (.ok source, ⟨w, l.pending ++ [(p, source)], l.files ++ [p]⟩)
  | .error fault => (.error fault, ⟨w, l.pending, l.files ++ [p]⟩)

/-- A remembered tree is loaded as it is. -/
theorem load_of_some {p : Text} {l : Loader} {w : World} {source : Source}
    (hpending : l.pending.lookup p = none)
    (hcached : c.cachedTree l.world p = (some source, w)) :
    c.load p l = l.note p w (.ok source) := by
  rw [load, hpending]
  simp only [hcached, Loader.note]

/-- A file that is neither loaded nor remembered is read and parsed. -/
theorem load_of_none {p : Text} {l : Loader} {w : World} (hpending : l.pending.lookup p = none)
    (hcached : c.cachedTree l.world p = (none, w)) :
    c.load p l = l.note p (w.read p).2 (w.library.treeAt c.propertySyntax w.disk p) := by
  rw [load, hpending]
  simp only [hcached, World.read]
  unfold Library.treeAt
  cases w.library.read w.disk p with
  | error fault => rfl
  | ok text =>
    dsimp only
    cases Source.parse c.propertySyntax text p 1 <;> rfl

theorem Loader.world_note (l : Loader) (p : Text) (w : World) (tree : Except Fault Source) :
    (l.note p w tree).2.world = w := by
  cases tree <;> rfl

/-- The file of a target that was resolved is loaded. -/
theorem loadImport_of_ok {uri file p : Text} {l : Loader} {w : World}
    (h : l.world.resolve uri file = (.ok p, w)) :
    c.loadImport uri file l = ((c.load p { l with world := w }).1.map fun source => (source, p),
      (c.load p { l with world := w }).2) := by
  rw [loadImport, h]
  dsimp only
  rcases c.load p { l with world := w } with ⟨_ | source, l'⟩ <;> rfl

theorem disk_load (c : Compiler) (p : Text) (l : Loader) :
    (c.load p l).2.world.disk = l.world.disk := by
  have hcached : (c.cachedTree l.world p).2.disk = l.world.disk := by
    rw [cachedTree]
    split <;> rfl
  cases hpending : l.pending.lookup p with
  | some source => rw [load, hpending]
  | none =>
    rcases hfound : c.cachedTree l.world p with ⟨_ | source, w⟩ <;> rw [hfound] at hcached
    · rw [load_of_none hpending hfound, Loader.world_note]
      exact hcached
    · rw [load_of_some hpending hfound, Loader.world_note]
      exact hcached

theorem disk_loadImport (c : Compiler) (uri file : Text) (l : Loader) :
    (c.loadImport uri file l).2.world.disk = l.world.disk := by
  rcases hresolve : l.world.resolve uri file with ⟨_ | p, w⟩
  · rw [loadImport, hresolve]
    exact (congrArg (fun x => x.2.disk) hresolve).symm
  · rw [loadImport_of_ok hresolve]
    exact (disk_load c p _).trans (congrArg (fun x => x.2.disk) hresolve).symm

/-- Trees come into the library one after the other, in the order in which it takes them. -/
theorem library_commit (c : Compiler) (l : Loader) :
    (c.commit l).library = (if c.options.cache then
        l.world.library.handOver.order l.pending else []).foldl
      (fun lib entry => lib.putCached l.world.disk entry.1 entry.2) l.world.library := by
  rw [commit]
  split
  · generalize l.world.library.handOver.order l.pending = trees
    generalize l.world = w
    induction trees generalizing w with
    | nil => rfl
    | cons entry rest ih => exact ih _
  · rfl

theorem disk_commit (c : Compiler) (l : Loader) : (c.commit l).disk = l.world.disk := by
  rw [commit]
  split
  · generalize l.world.library.handOver.order l.pending = trees
    generalize l.world = w
    induction trees generalizing w with
    | nil => rfl
    | cons entry rest ih => exact ih _
  · rfl

theorem cachedTree_off (w : World) (p : Text) : (c.caching false).cachedTree w p = (none, w) := rfl

theorem cachedTree_on {found : Option Source} {lib lib' : Library} {p : Text}
    (h : lib.getCached d p = (found, lib')) (reads : List Text) :
    (c.caching true).cachedTree ⟨d, lib, reads⟩ p = (found, ⟨d, lib', reads⟩) := by
  show ((lib.getCached d p).1, (⟨d, (lib.getCached d p).2, reads⟩ : World)) = _
  rw [h]

section Notes
variable (lib : Library) {trees : Recent Text CachedTree} {pending : List (Text × Source)}
  {files reads reads' : List Text} {w w' : World}

/-- Loaders that note the same current tree stay alike. -/
theorem note_alike (remembers : (lib.withTrees trees).Remembers way seen)
    (current : ∀ p source, (p, source) ∈ pending → lib.treeAt way d p = .ok source) (p : Text) :
    let tree := lib.treeAt way d p
    let l := Loader.note ⟨w, pending, files⟩ p ⟨d, lib.withTrees trees, reads⟩ tree
    let l' := Loader.note ⟨w', pending, files⟩ p ⟨d, lib, reads'⟩ tree
    l.1 = l'.1 ∧ LoadersAlike way seen d l.2 l'.2 := by
  cases htree : lib.treeAt way d p with
  | error fault => exact ⟨rfl, .mk remembers current⟩
  | ok source =>
    refine ⟨rfl, .mk remembers ?_⟩
    intro q tree hmem
    rcases List.mem_append.mp hmem with hmem | hmem
    · exact current q tree hmem
    · cases List.mem_singleton.mp hmem
      exact htree

end Notes

/-- **Loading a file** gives the same tree, be it remembered or not. -/
theorem load_alike (hkeeps : ∀ d₀ ∈ seen, Disk.Keeps d₀ d) (p : Text) {l l' : Loader}
    (h : LoadersAlike c.propertySyntax seen d l l') :
    ((c.caching true).load p l).1 = ((c.caching false).load p l').1 ∧
      LoadersAlike c.propertySyntax seen d ((c.caching true).load p l).2
        ((c.caching false).load p l').2 := by
  obtain @⟨lib, trees, reads, reads', pending, files, remembers, current⟩ := h
  cases hpending : pending.lookup p with
  | some source =>
    rw [load, load, hpending]
    exact ⟨rfl, .mk remembers current⟩
  | none =>
    obtain ⟨found, trees', hget, remembers', hfound⟩ := remembers.getCached hkeeps p
    have hcached := cachedTree_on (c := c) hget reads
    have hread := @load_of_none (c.caching false) p ⟨_, pending, files⟩ _ hpending
      (cachedTree_off ⟨d, lib, reads'⟩ p)
    cases found with
    | some source =>
      -- the remembered tree is the one that reading the file gives
      have hsource : lib.treeAt c.propertySyntax d p = .ok source := hfound source rfl
      have hload := @load_of_some (c.caching true) p ⟨_, pending, files⟩ _ _ hpending hcached
      rw [hload, hread, ← hsource]
      exact note_alike lib remembers' current p
    | none =>
      have hload := @load_of_none (c.caching true) p ⟨_, pending, files⟩ _ hpending hcached
      rw [hload, hread]
      exact note_alike lib remembers' current p

/-- Resolving does not look at trees. -/
theorem resolve_alike (uri file : Text) {l l' : Loader} (h : LoadersAlike way seen d l l') :
    (l.world.resolve uri file).1 = (l'.world.resolve uri file).1 ∧
      LoadersAlike way seen d { l with world := (l.world.resolve uri file).2 }
        { l' with world := (l'.world.resolve uri file).2 } := by
  obtain @⟨lib, trees, reads, reads', pending, files, remembers, current⟩ := h
  let resolved := (lib.resolveCached d uri file).2
  exact ⟨rfl, @LoadersAlike.mk way seen d resolved trees reads reads' pending files remembers
    current⟩

theorem loadImport_alike (hkeeps : ∀ d₀ ∈ seen, Disk.Keeps d₀ d) :
    Expand.ImportersAlike (LoadersAlike c.propertySyntax seen d) (c.caching true).importer
      (c.caching false).importer := by
  intro uri file l l' h
  obtain ⟨hresult, hloaders⟩ := resolve_alike uri file h
  simp only [importer, loadImport]
  rcases hw : l.world.resolve uri file with ⟨result, w⟩
  rcases hw' : l'.world.resolve uri file with ⟨result', w'⟩
  rw [hw, hw'] at hresult hloaders
  obtain rfl : result = result' := hresult
  cases result with
  | error fault => exact ⟨rfl, hloaders⟩
  | ok p =>
    have hload := load_alike hkeeps p hloaders
    dsimp only at hload ⊢
    rcases hl : (c.caching true).load p { l with world := w } with ⟨tree, l₁⟩
    rcases hl' : (c.caching false).load p { l' with world := w' } with ⟨tree', l₁'⟩
    rw [hl, hl'] at hload
    obtain ⟨rfl, hloaded⟩ := hload
    cases tree with
    | error fault => exact ⟨rfl, hloaded⟩
    | ok source => exact ⟨rfl, hloaded⟩

theorem settings_alike (hkeeps : ∀ d₀ ∈ seen, Disk.Keeps d₀ d) :
    Expand.SettingsAlike (LoadersAlike c.propertySyntax seen d) (c.caching true).settings
      (c.caching false).settings :=
  ⟨rfl, rfl, .some (loadImport_alike hkeeps)⟩

theorem commit_off (l : Loader) : (c.caching false).commit l = l.world := rfl

/-- Loaded trees are current, so they may be remembered. -/
theorem commit_alike (hd : d ∈ seen) {l l' : Loader} (h : LoadersAlike way seen d l l') :
    WorldsAlike way seen d ((c.caching true).commit l) ((c.caching false).commit l') := by
  obtain @⟨lib, trees, reads, reads', pending, files, remembers, current⟩ := h
  have hon : (c.caching true).options.cache = true := rfl
  rw [commit_off, commit, if_pos hon]
  dsimp only
  -- the trees are handed over one after the other, in any order
  have hperm := (lib.withTrees trees).handOver.perm pending
  generalize (lib.withTrees trees).handOver.order pending = handed at hperm
  replace current : ∀ p source, (p, source) ∈ handed → lib.treeAt way d p = .ok source :=
    fun p source hmem => current p source (hperm.mem_iff.1 hmem)
  clear hperm
  induction handed generalizing trees with
  | nil => exact .mk remembers
  | cons first rest ih =>
    obtain ⟨p, source⟩ := first
    have hsource := current p source List.mem_cons_self
    obtain ⟨trees', hput, remembers'⟩ :=
      remembers.putCached fun _ => Library.saw_of_treeAt hd hsource
    rw [List.foldl_cons]
    dsimp only
    rw [hput]
    exact ih remembers' fun q tree hmem => current q tree (List.mem_cons_of_mem _ hmem)

theorem render_alike (hkeeps : ∀ d₀ ∈ seen, Disk.Keeps d₀ d) (hd : d ∈ seen) (source : Source)
    (file : Text) {l l' : Loader} (h : LoadersAlike c.propertySyntax seen d l l') :
    ((c.caching true).render source file l).1 = ((c.caching false).render source file l').1 ∧
      ((c.caching true).render source file l).2.files =
        ((c.caching false).render source file l').2.files ∧
      WorldsAlike c.propertySyntax seen d ((c.caching true).render source file l).2.world
        ((c.caching false).render source file l').2.world := by
  have hrun := Expand.source_alike (settings_alike hkeeps) c.fuel file source l l' h
  simp only [render, caching_fuel, caching_style]
  rcases hl : (Expand.source (c.caching true).settings c.fuel file source).run l with ⟨css, l₁⟩
  rcases hl' : (Expand.source (c.caching false).settings c.fuel file source).run l' with ⟨css', l₁'⟩
  rw [hl, hl'] at hrun
  obtain ⟨rfl, hloaders⟩ := hrun
  cases css with
  | error stop =>
    obtain ⟨remembers, _⟩ := hloaders
    exact ⟨rfl, rfl, .mk remembers⟩
  | ok css =>
    have hworlds := commit_alike (c := c) hd hloaders
    obtain ⟨_, _⟩ := hloaders
    exact ⟨rfl, rfl, hworlds⟩

/-- **Compiling a text** has the same result with and without remembered trees. -/
theorem compile_alike (hkeeps : ∀ d₀ ∈ seen, Disk.Keeps d₀ d) (hd : d ∈ seen) (source : Text)
    {w w' : World} (h : WorldsAlike c.propertySyntax seen d w w') :
    ((c.caching true).compile source w).1 = ((c.caching false).compile source w').1 ∧
      WorldsAlike c.propertySyntax seen d ((c.caching true).compile source w).2
        ((c.caching false).compile source w').2 := by
  simp only [compile, caching_parse]
  cases c.parse source with
  | error fault => exact ⟨rfl, h⟩
  | ok tree =>
    obtain ⟨hcss, -, hworlds⟩ := render_alike hkeeps hd tree [] (loadersAlike_start h)
    exact ⟨hcss, hworlds⟩

/-- **Compiling a file** has the same result with and without remembered trees, and loads the same
files. -/
theorem compileFile_alike (hkeeps : ∀ d₀ ∈ seen, Disk.Keeps d₀ d) (hd : d ∈ seen) (path : Text)
    {w w' : World} (h : WorldsAlike c.propertySyntax seen d w w') :
    ((c.caching true).compileFile path w).1 = ((c.caching false).compileFile path w').1 ∧
      WorldsAlike c.propertySyntax seen d ((c.caching true).compileFile path w).2
        ((c.caching false).compileFile path w').2 := by
  obtain ⟨hresult, hstart⟩ := resolve_alike path [] (loadersAlike_start h)
  simp only [compileFile, Loader.start] at hresult hstart ⊢
  rcases hw : w.resolve path [] with ⟨result, w₁⟩
  rcases hw' : w'.resolve path [] with ⟨result', w₁'⟩
  rw [hw, hw'] at hresult hstart
  obtain rfl : result = result' := hresult
  cases result with
  | error fault =>
    obtain ⟨remembers, _⟩ := hstart
    exact ⟨rfl, .mk remembers⟩
  | ok p =>
    have hload := load_alike hkeeps p hstart
    dsimp only at hload ⊢
    rcases hl : (c.caching true).load p ⟨w₁, [], []⟩ with ⟨tree, l⟩
    rcases hl' : (c.caching false).load p ⟨w₁', [], []⟩ with ⟨tree', l'⟩
    rw [hl, hl'] at hload
    obtain ⟨rfl, hloaders⟩ := hload
    cases tree with
    | error fault =>
      obtain ⟨remembers, _⟩ := hloaders
      exact ⟨rfl, .mk remembers⟩
    | ok source =>
      obtain ⟨hcss, hfiles, hworlds⟩ := render_alike hkeeps hd source p hloaders
      dsimp only
      rw [hcss, hfiles]
      exact ⟨rfl, hworlds⟩

end Compiler

/-! ## Whole sessions -/

section Sessions
variable {way : PropertySyntax} {seen : List Disk} {d : Disk} {c : Compiler} {w w' : World}

theorem WorldsAlike.mono {seen' : List Disk} (h : WorldsAlike way seen d w w')
    (hseen : ∀ d₀ ∈ seen, d₀ ∈ seen') : WorldsAlike way seen' d w w' := by
  obtain ⟨remembers⟩ := h
  exact .mk (remembers.mono hseen fun _ hentry => hentry)

/-- One act of a session. -/
theorem Act.run_alike (hkeeps : ∀ d₀ ∈ seen, Disk.Keeps d₀ d) (hd : d ∈ seen) (act : Act)
    (h : WorldsAlike c.propertySyntax seen d w w') :
    (act.run (c.caching true) w).1 = (act.run (c.caching false) w').1 ∧
      WorldsAlike c.propertySyntax seen (act.onDisk d) (act.run (c.caching true) w).2
        (act.run (c.caching false) w').2 := by
  cases act with
  | write path file =>
    obtain ⟨remembers⟩ := h
    exact ⟨rfl, .mk remembers⟩
  | remove path =>
    obtain ⟨remembers⟩ := h
    exact ⟨rfl, .mk remembers⟩
  | forget keep =>
    obtain @⟨lib, trees, reads, reads', remembers⟩ := h
    let kept (trees : Recent Text CachedTree) : Recent Text CachedTree :=
      { trees with items := trees.items.filter fun entry => keep entry.1 }
    have hkept : ∀ entry ∈ (kept trees).items, entry ∈ trees.items :=
      fun _ hentry => (List.mem_filter.mp hentry).1
    exact ⟨rfl, @WorldsAlike.mk _ _ _ (lib.withTrees (kept lib.trees)) (kept trees) reads reads'
      (remembers.mono (fun _ hd => hd) hkept)⟩
  | compile source =>
    obtain ⟨hcss, hworlds⟩ := Compiler.compile_alike hkeeps hd source h
    exact ⟨congrArg (fun css => some (Compiler.Compiled.mk css [])) hcss, hworlds⟩
  | compileFile path =>
    obtain ⟨hcompiled, hworlds⟩ := Compiler.compileFile_alike hkeeps hd path h
    exact ⟨congrArg some hcompiled, hworlds⟩

/-- From alike worlds on, the rest of a session has the same answers. -/
theorem answers_alike (acts : List Act) (h : WorldsAlike c.propertySyntax (seen ++ [d]) d w w')
    (hkeeps : (seen ++ disks d acts).Pairwise Disk.Keeps) :
    answers (c.caching true) w acts = answers (c.caching false) w' acts := by
  induction acts generalizing seen d w w' with
  | nil => rfl
  | cons act acts ih =>
    rw [disks, List.append_cons] at hkeeps
    obtain ⟨hseen, -, -⟩ := List.pairwise_append.mp hkeeps
    -- the disk at hand counts as seen, and a compilation may remember trees from it
    have hcurrent : ∀ d₀ ∈ seen ++ [d], Disk.Keeps d₀ d := by
      intro d₀ hd₀
      rcases List.mem_append.mp hd₀ with hd₀ | hd₀
      · exact (List.pairwise_append.mp hseen).2.2 d₀ hd₀ d List.mem_cons_self
      · rw [List.mem_singleton.mp hd₀]
        exact Disk.keeps_refl d
    obtain ⟨hanswer, hworlds⟩ :=
      act.run_alike hcurrent (List.mem_append_right seen List.mem_cons_self) h
    rw [answers, answers, hanswer]
    congr 1
    exact ih (hworlds.mono fun _ => List.mem_append_left _) hkeeps

end Sessions

/-- **Remembered trees make no difference.** In any session over a disk in memory in which no path
carries two texts under one time, and no path that had a file of the time of directories becomes a
directory, a compiler gives the same answers whether it uses remembered trees or not: the same
style sheets or faults, and the same lists of files. It does not matter how many trees the library
keeps, nor which ones it loses in between, nor how they come in. -/
theorem answers_caching (c : Compiler) (o : LibraryOptions) (choices : Library.Choices) (d : Disk)
    (acts : List Act) (htext : OneText (disks d acts)) (hdir : NoLateDirectory (disks d acts)) :
    answers (c.caching true) ⟨d, (Library.inMemory o).choosing choices, []⟩ acts =
      answers (c.caching false) ⟨d, (Library.inMemory o).choosing choices, []⟩ acts := by
  let lib := (Library.inMemory o).choosing choices
  have hstart : WorldsAlike c.propertySyntax [d] d ⟨d, lib, []⟩ ⟨d, lib, []⟩ :=
    @WorldsAlike.mk _ _ _ lib lib.trees [] [] nofun
  exact @answers_alike [] d c _ _ acts hstart (Disk.pairwise_keeps htext hdir)

/-- A compiler with the defaults for all options. -/
def plainCompiler : Compiler := ⟨({} : Options).filled, .nested, Compiler.ampleFuel⟩

/-- Libraries that look nowhere but at the given names, and keep two trees. -/
def plainLibrary : LibraryOptions := ⟨[], [], 2⟩

/-- An imported file changes, vanishes and comes back with its old text and time, and all trees are
lost once in between. -/
theorem answers_caching_edits :
    let d : Disk := ⟨[("a.sass", ⟨"@import b\n", 1⟩), ("b.sass", ⟨"p\n  q: r\n", 1⟩)], [], false⟩
    let acts : List Act := [.compileFile "a.sass", .write "b.sass" ⟨"p\n  q: s\n", 2⟩,
      .compileFile "a.sass", .remove "b.sass", .compile "@import b", .forget fun _ => false,
      .write "b.sass" ⟨"p\n  q: r\n", 1⟩, .compileFile "a.sass"]
    OneText (disks d acts) ∧ NoLateDirectory (disks d acts) ∧
      answers (plainCompiler.caching true) ⟨d, .inMemory plainLibrary, []⟩ acts =
        answers (plainCompiler.caching false) ⟨d, .inMemory plainLibrary, []⟩ acts := by
  intro d acts
  have htext : OneText (disks d acts) := by decide
  have hdir : NoLateDirectory (disks d acts) := by decide
  exact ⟨htext, hdir, answers_caching plainCompiler plainLibrary .plain d acts htext hdir⟩

/-- The world at the end of a session. -/
def lastWorld (c : Compiler) : World → List Act → World
  | w, [] => w
  | w, act :: acts => lastWorld c (act.run c w).2 acts

/-- That no path carries two texts under one time is not enough. A directory has always the same
time, so a tree that was read from a file of that time is still served when a directory has taken
the place of the file, though nothing can be read there any more. -/
theorem stale_directory :
    let d : Disk := ⟨[("a.sass", ⟨"a\n  b: c\n", Disk.noTime⟩)], [], false⟩
    let acts : List Act := [.compileFile "a.sass", .remove "a.sass",
      .write "a.sass/b.sass" ⟨"d\n  e: f\n", 0⟩, .compileFile "a.sass"]
    OneText (disks d acts) ∧
      (∀ on, (lastWorld (plainCompiler.caching on) ⟨d, .inMemory plainLibrary, []⟩
        acts).library.resolved.isFull = false) ∧
      answers (plainCompiler.caching true) ⟨d, .inMemory plainLibrary, []⟩ acts ≠
        answers (plainCompiler.caching false) ⟨d, .inMemory plainLibrary, []⟩ acts := by
  intro d acts
  refine ⟨by decide, by decide +kernel, ?_⟩
  intro h
  have hsucceed := congrArg (List.map fun a => a.css.isOk) h
  exact absurd hsucceed (by decide +kernel)

end IndentedSass
