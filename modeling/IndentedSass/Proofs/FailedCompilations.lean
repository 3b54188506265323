import IndentedSass.Proofs.Calls
import IndentedSass.Proofs.Visits

/-!
# Failed compilations leave nothing behind

Looking for a remembered tree makes it the newest, or forgets it when its file has changed. New
trees come in only when a compilation is over and has succeeded. So a compilation that fails,
wherever that happens and whatever it has loaded by then, leaves a library that remembers nothing
new and has forgotten no tree that is still good: `Library.OnlyForgets`.

This relation between an earlier and a later library is reflexive and transitive, and every load
respects it (`forgetful_loadImport`). That makes it a `Promise` that an expansion keeps however it
ends, `Compiler.forgetting`.
-/

namespace IndentedSass

namespace Library
variable {d : Disk} {lib lib' lib'' : Library}

/-- A later library remembers only what an earlier one did, tree and time, and still remembers every
tree whose file is there and has the remembered time. -/
structure OnlyForgets (d : Disk) (lib lib' : Library) : Prop where
  toDisk : ∀ p, lib'.toDisk p = lib.toDisk p
  old : ∀ entry ∈ lib'.trees.items, entry ∈ lib.trees.items
  kept : ∀ p entry, lib.trees.items.lookup p = some entry → lib.modTime d p = .ok entry.mtime →
    lib'.trees.items.lookup p = some entry

theorem OnlyForgets.refl (d : Disk) (lib : Library) : OnlyForgets d lib lib where
  toDisk _ := rfl
  old _ h := h
  kept _ _ h _ := h

theorem OnlyForgets.trans (h : OnlyForgets d lib lib') (h' : OnlyForgets d lib' lib'') :
    OnlyForgets d lib lib'' where
  toDisk p := (h'.toDisk p).trans (h.toDisk p)
  old entry hentry := h.old entry (h'.old entry hentry)
  kept p entry hentry htime := by
    have htime' : lib'.modTime d p = .ok entry.mtime := by
      rw [modTime_eq_ok] at htime ⊢
      rw [h.toDisk, htime]
    exact h'.kept p entry (h.kept p entry hentry htime) htime'

theorem onlyForgets_resolveCached (lib : Library) (d : Disk) (uri file : Text) :
    OnlyForgets d lib (lib.resolveCached d uri file).2 where
  toDisk _ := rfl
  old _ h := h
  kept _ _ h _ := h

/-- **Looking for a tree forgets it only if its file has changed.** -/
theorem onlyForgets_getCached (lib : Library) (d : Disk) (p : Text) :
    OnlyForgets d lib (lib.getCached d p).2 := by
  have hold := Recent.laws.mem_get p lib.trees
  have hlookup := Recent.laws.lookup_get p lib.trees
  have hfound := Recent.laws.answer p lib.trees
  unfold getCached
  rcases hget : lib.trees.get? p with ⟨found, trees⟩
  rw [hget] at hold hlookup hfound
  -- a tree that is dropped is the one of `p`, and its time is not that of the file
  have hdrop (hstale : ∀ entry, found = some entry → lib.modTime d p ≠ .ok entry.mtime) :
      OnlyForgets d lib { lib with trees := trees.erase p } := by
    refine ⟨fun _ => rfl,
      fun entry hentry => hold entry (Recent.laws.mem_erase p trees entry hentry), ?_⟩
    intro q entry hentry htime
    have hne : q ≠ p := by
      rintro rfl
      exact hstale entry (hfound.trans hentry) htime
    exact (Recent.laws.lookup_erase p trees q hne).trans ((hlookup q).trans hentry)
  have hkeep : OnlyForgets d lib { lib with trees := trees } :=
    ⟨fun _ => rfl, hold, fun q entry hentry _ => (hlookup q).trans hentry⟩
  cases found with
  | none => exact hkeep
  | some entry =>
    cases htime : lib.modTime d p with
    | error fault => exact hdrop fun _ _ h => by rw [htime] at h; cases h
    | ok time =>
      dsimp only
      split
      · exact hkeep
      · rename_i hother
        refine hdrop fun entry' hentry' h => hother ?_
        cases hentry'
        rw [htime] at h
        exact Except.ok.inj h

end Library

namespace Compiler
variable {c : Compiler} {l l' l'' : Loader}

/-- From one state of a compilation to a later one the disk stays as it is, and trees are at most
forgotten. -/
structure Forgetful (l l' : Loader) : Prop where
  disk : l'.world.disk = l.world.disk
  library : Library.OnlyForgets l.world.disk l.world.library l'.world.library

theorem Forgetful.refl (l : Loader) : Forgetful l l := ⟨rfl, .refl _ _⟩

theorem Forgetful.trans (h : Forgetful l l') (h' : Forgetful l' l'') : Forgetful l l'' :=
  ⟨h'.disk.trans h.disk, h.library.trans (h.disk ▸ h'.library)⟩

theorem forgetful_cachedTree (w : World) (p : Text) :
    Library.OnlyForgets w.disk w.library (c.cachedTree w p).2.library := by
  rw [cachedTree]
  split
  · exact Library.onlyForgets_getCached w.library w.disk p
  · exact .refl _ _

theorem forgetful_load (p : Text) (l : Loader) : Forgetful l (c.load p l).2 := by
  refine ⟨disk_load c p l, ?_⟩
  have hcached := @forgetful_cachedTree c l.world p
  cases hpending : l.pending.lookup p with
  | some source =>
    rw [load, hpending]
    exact .refl _ _
  | none =>
    rcases hfound : c.cachedTree l.world p with ⟨_ | source, w⟩
    · rw [hfound] at hcached
      rw [load_of_none hpending hfound, Loader.world_note]
      exact hcached
    · rw [hfound] at hcached
      rw [load_of_some hpending hfound, Loader.world_note]
      exact hcached

theorem forgetful_resolve (uri file : Text) (l : Loader) :
    Forgetful l { l with world := (l.world.resolve uri file).2 } :=
  ⟨rfl, Library.onlyForgets_resolveCached l.world.library l.world.disk uri file⟩

/-- **A load leaves nothing new in the library.** -/
theorem forgetful_loadImport (uri file : Text) (l : Loader) :
    Forgetful l (c.loadImport uri file l).2 := by
  have hresolve := forgetful_resolve uri file l
  rcases hworld : l.world.resolve uri file with ⟨fault | p, w⟩
  · rw [hworld] at hresolve
    rw [loadImport, hworld]
    exact hresolve
  · rw [hworld] at hresolve
    rw [loadImport_of_ok hworld]
    exact hresolve.trans (forgetful_load p _)

/-- What every expansion promises about the library. -/
def forgetting (c : Compiler) : Expand.Promise c.settings where
  Sound _ := True
  Later := Forgetful
  Vouched _ _ := True
  refl := .refl
  trans h h' := h.trans h'
  mono _ h := h
  nested h _ _ := h
  load := by
    intro importer l himporter _ uri file
    cases himporter
    exact ⟨trivial, forgetful_loadImport uri file l, fun _ _ _ _ _ => trivial⟩

/-- An expansion that fails hands no tree to the library. -/
theorem forgetful_render {source : Source} {file : Text} {stop : Expand.Stop}
    (h : (c.render source file l).1 = .error stop) : Forgetful l (c.render source file l).2 := by
  have hlater := (c.forgetting.steady_source c.fuel file source l trivial).2
  rw [render] at h ⊢
  rcases hrun : (Expand.source c.settings c.fuel file source).run l with ⟨stop' | css, l₁⟩
  · rw [hrun] at hlater
    exact hlater
  · rw [hrun] at h
    cases h

theorem forgetful_compile {source : Text} {w : World} {stop : Expand.Stop}
    (h : (c.compile source w).1 = .error stop) :
    Library.OnlyForgets w.disk w.library (c.compile source w).2.library := by
  rw [compile] at h ⊢
  cases hparse : c.parse source with
  | error fault => exact .refl _ _
  | ok tree =>
    rw [hparse] at h
    exact (forgetful_render h).library

theorem forgetful_compileFile {path : Text} {w : World} {stop : Expand.Stop}
    (h : (c.compileFile path w).1.css = .error stop) :
    Library.OnlyForgets w.disk w.library (c.compileFile path w).2.library := by
  have hresolve := forgetful_resolve path [] (.start w)
  rw [compileFile] at h ⊢
  rcases hworld : w.resolve path [] with ⟨fault | p, w₁⟩
  · rw [show (Loader.start w).world = w from rfl, hworld] at hresolve
    exact hresolve.library
  · rw [show (Loader.start w).world = w from rfl, hworld] at hresolve
    rw [hworld] at h
    have hload := hresolve.trans (forgetful_load (c := c) p (.start w₁))
    dsimp only at h ⊢
    rcases htree : c.load p (.start w₁) with ⟨fault | source, l₁⟩
    · rw [htree] at hload
      exact hload.library
    · rw [htree] at h hload
      exact (hload.trans (forgetful_render h)).library

/-- **A failed compilation leaves nothing behind.** Be it of a text or of a file, at whatever point
it fails and in whatever state the library and the disk are: there is no style sheet, the library
remembers no tree that it did not remember before with the same time, and the only trees that it may
have forgotten are those whose file is gone or has another time. -/
theorem failed_onlyForgets (c : Compiler) (w : World) :
    (∀ source stop, (c.compile source w).1 = .error stop →
      (c.compile source w).1.toOption.getD [] = [] ∧
        Library.OnlyForgets w.disk w.library (c.compile source w).2.library) ∧
    ∀ path stop, (c.compileFile path w).1.css = .error stop →
      (c.compileFile path w).1.css.toOption.getD [] = [] ∧
        Library.OnlyForgets w.disk w.library (c.compileFile path w).2.library := by
  refine ⟨fun source stop h => ⟨?_, forgetful_compile h⟩,
    fun path stop h => ⟨?_, forgetful_compileFile h⟩⟩
  · rw [h]
    rfl
  · rw [h]
    rfl

/-- The last of three imports is missing. By then the tree of the first, which had changed, has been
forgotten and read anew; it is not remembered. That of the second stays. -/
theorem failed_onlyForgets_missing :
    let d : Disk := ⟨[("a.sass", ⟨"@import b\n@import c\n@import e\n", 1⟩),
      ("b.sass", ⟨"p\n  q: r\n", 2⟩), ("c.sass", ⟨"s\n  t: u\n", 1⟩)], [], false⟩
    let tree : CachedTree := ⟨⟨.none, []⟩, 1⟩
    let lib : Library := { Library.inMemory plainLibrary with
      trees := ⟨2, [("b.sass", tree), ("c.sass", tree)]⟩ }
    let c := plainCompiler.caching true
    ∃ stop, (c.compileFile "a.sass" ⟨d, lib, []⟩).1.css = .error stop ∧
      (c.compileFile "a.sass" ⟨d, lib, []⟩).2.library.trees.items.map Prod.fst =
        [("c.sass" : Text)] ∧
      Library.OnlyForgets d lib (c.compileFile "a.sass" ⟨d, lib, []⟩).2.library := by
  intro d tree lib c
  have hleft : (c.compileFile "a.sass" ⟨d, lib, []⟩).2.library.trees.items.map Prod.fst =
      [("c.sass" : Text)] := by decide +kernel
  have hfailed : (c.compileFile "a.sass" ⟨d, lib, []⟩).1.css.isOk = false := by
    decide +kernel
  rcases hcss : (c.compileFile "a.sass" ⟨d, lib, []⟩).1.css with stop | css
  · have hforgets := (failed_onlyForgets c ⟨d, lib, []⟩).2 "a.sass" stop hcss
    exact ⟨stop, rfl, hleft, hforgets.2⟩
  · rw [hcss] at hfailed
    cases hfailed

end Compiler

end IndentedSass
