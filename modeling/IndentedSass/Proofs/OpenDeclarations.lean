import IndentedSass.Proofs.Exposure
import IndentedSass.Proofs.LocatedFaults

/-!
# Declarations outside of every block

No line at the outermost level of a source is read as a property (`grounded_of_parse`), and so no
tree that a compiler loads has one at its top (`grounded_of_gives`). That alone does not keep
declarations off the top of a finished sheet (`declarations_at_top`): calls, choices and loops at
the outermost level put them there, and nothing else does (`evaluate_exposes`).
-/

namespace IndentedSass

/-! ## Trees that are read -/

namespace Source

/-- No property stands at the top of the tree. -/
def Grounded (src : Source) : Prop := ∀ t ∈ src.body, t.isProperty = false

/-- The line does not turn out to be a property. -/
def Shape.Grounded : Shape → Prop
  | .skipped | .further .. => True
  | .closed s => s.isProperty = false
  | .opens make => ∀ body, (make body).isProperty = false

section Readers
variable {l : Line} {before : Option Statement} {rest rest' : List Line} {shape : Shape}

theorem leaf_grounded {what : Text} {s : Statement} (hs : s.isProperty = false)
    (h : leaf l rest what s = .ok (shape, rest')) : shape.Grounded := by
  rw [leaf] at h
  split at h
  · cases h
  · cases h
    exact hs

theorem comment_grounded (h : comment l rest = .ok (shape, rest')) : shape.Grounded := by
  rw [comment] at h
  dsimp only at h
  split at h
  · cases h
    trivial
  · cases h
    rfl
  · cases h

theorem otherwise_grounded (h : otherwise l rest before = .ok (shape, rest')) :
    shape.Grounded := by
  rw [otherwise] at h
  split at h
  · cases h
  · split at h
    · split at h
      · cases h
      · cases h
        trivial
    · cases h

theorem directive_grounded (h : directive l rest before = .ok (shape, rest')) :
    shape.Grounded := by
  rw [directive] at h
  split at h
  · cases h
  · dsimp only at h
    -- the keywords one by one, in the order of the reader
    split at h
    · split at h
      · cases h
      · exact leaf_grounded rfl h
    split at h
    · split at h
      · cases h
      · cases h
        exact fun _ => rfl
    split at h
    · split at h
      · cases h
      · cases h
        exact fun _ => rfl
    split at h
    · exact otherwise_grounded h
    split at h
    · split at h
      · cases h
      · cases h
        exact fun _ => rfl
    split at h
    · cases h
      trivial
    · cases h
      exact fun _ => rfl

/-- A line at the outermost level is no property. -/
theorem classify_grounded {way : PropertySyntax}
    (h : classify way l rest before = .ok (shape, rest')) (hl : l.indent = 0) :
    shape.Grounded := by
  rw [classify] at h
  split at h
  · exact comment_grounded h
  · exact directive_grounded h
  · rw [mixin, if_neg (not_not.2 hl)] at h
    split at h
    · cases h
    · obtain ⟨ps, -, h⟩ := Outcome.of_bind_eq_ok h
      cases h
      exact fun _ => rfl
  · rw [call] at h
    split at h
    · cases h
    · exact leaf_grounded rfl h
  iterate 2
    rw [assign] at h
    split at h
    · cases h
    · exact leaf_grounded rfl h
  · split at h
    · rw [property, if_pos hl] at h
      cases h
    · rw [rule] at h
      obtain ⟨groups, -, h⟩ := Outcome.of_bind_eq_ok h
      cases h
      exact fun _ => rfl

end Readers

/-- The outermost level of a tree has no property. The induction is on the fuel, and `done` holds
what came before on the level. -/
theorem build_grounded {way : PropertySyntax} {fuel : Nat} {done body : List Statement}
    {lines rest : List Line} (hdone : ∀ t ∈ done, t.isProperty = false)
    (h : build way fuel 0 done lines = .ok (body, rest)) : ∀ t ∈ body, t.isProperty = false := by
  induction fuel generalizing done lines with
  | zero =>
    cases h
    simpa using hdone
  | succ fuel ih =>
    rw [build] at h
    cases hup : upcoming lines with
    | nil =>
      rw [hup] at h
      cases h
      simpa using hdone
    | cons l lines =>
      rw [hup] at h
      dsimp only at h
      rw [if_neg (Nat.not_lt_zero _)] at h
      split at h
      · cases h
      · rename_i hindent
        have hl : l.indent = 0 := Nat.eq_zero_of_not_pos hindent
        obtain ⟨⟨shape, lines'⟩, hshape, h⟩ := Outcome.of_bind_eq_ok h
        have grounded := classify_grounded (locating_eq_ok hshape) hl
        have add {s : Statement} (hs : s.isProperty = false) {ss : List Statement}
            (hss : ∀ t ∈ ss, t.isProperty = false) : ∀ t ∈ s :: ss, t.isProperty = false :=
          List.forall_mem_cons.2 ⟨hs, hss⟩
        cases shape with
        | skipped => exact ih hdone h
        | closed s => exact ih (add grounded hdone) h
        | opens make =>
          obtain ⟨⟨nested, lines''⟩, -, h⟩ := Outcome.of_bind_eq_ok h
          exact ih (add (grounded nested) hdone) h
        | further head more test =>
          obtain ⟨⟨nested, lines''⟩, -, h⟩ := Outcome.of_bind_eq_ok h
          exact ih (add rfl fun t ht => hdone t (List.mem_of_mem_tail ht)) h

/-- **No property stands at the top of a tree that is read.** -/
theorem grounded_of_parse {way : PropertySyntax} {text file : Text} {first : Int} {src : Source}
    (h : parse way text file first = .ok src) : src.Grounded := by
  rw [parse] at h
  obtain ⟨lines, -, h⟩ := Outcome.of_bind_eq_ok h
  rw [ofLines] at h
  obtain ⟨⟨body, rest⟩, hbuild, h⟩ := Outcome.of_bind_eq_ok h
  cases h
  exact build_grounded (List.forall_mem_nil _) hbuild

end Source

/-! ## Trees that are loaded -/

/-- No tree that the library keeps has a property at its top. -/
def Library.Grounded (lib : Library) : Prop := ∀ e ∈ lib.trees.items, e.2.source.Grounded

namespace Compiler
variable {c : Compiler} {l : Loader}

/-- No tree that is kept or loaded has a property at its top. -/
structure Loader.Grounded (l : Loader) : Prop where
  library : l.world.library.Grounded
  pending : ∀ e ∈ l.pending, e.2.Grounded

theorem grounded_getCached {lib : Library} (h : lib.Grounded) (disk : Disk) (p : Text) :
    (lib.getCached disk p).2.Grounded ∧
      ∀ src, (lib.getCached disk p).1 = some src → src.Grounded := by
  obtain ⟨found, trees, hget, htrees, hfound⟩ := lib.getCached_eq disk p
  rw [hget]
  refine ⟨fun e he => h e (htrees e he), fun src hsrc => ?_⟩
  obtain ⟨entry, hentry, rfl, -⟩ := hfound src hsrc
  exact h _ hentry

theorem grounded_cachedTree {w : World} (h : w.library.Grounded) (p : Text) :
    (c.cachedTree w p).2.library.Grounded ∧
      ∀ src, (c.cachedTree w p).1 = some src → src.Grounded := by
  rw [cachedTree]
  split
  · exact grounded_getCached h w.disk p
  · exact ⟨h, fun _ hnone => by cases hnone⟩

theorem Loader.Grounded.note (h : l.Grounded) {w : World} (hw : w.library.Grounded) (p : Text)
    {tree : Except Fault Source} (htree : ∀ src, tree = .ok src → src.Grounded) :
    (l.note p w tree).2.Grounded ∧
      ∀ src, (l.note p w tree).1 = .ok src → src.Grounded := by
  cases tree with
  | error f => exact ⟨⟨hw, h.pending⟩, nofun⟩
  | ok src =>
    refine ⟨⟨hw, fun e he => ?_⟩, fun src' hsrc => ?_⟩
    · rcases List.mem_append.1 he with he | he
      · exact h.pending e he
      · obtain rfl := List.mem_singleton.1 he
        exact htree src rfl
    · cases hsrc
      exact htree src rfl

theorem Loader.Grounded.load (h : l.Grounded) (p : Text) :
    (c.load p l).2.Grounded ∧ ∀ src, (c.load p l).1 = .ok src → src.Grounded := by
  cases hpending : l.pending.lookup p with
  | some src =>
    have hload : c.load p l = (.ok src, l) := by rw [Compiler.load, hpending]
    rw [hload]
    refine ⟨h, fun src' hsrc => ?_⟩
    cases hsrc
    exact h.pending _ (Recent.mem_of_lookup hpending)
  | none =>
    have hcached := grounded_cachedTree (c := c) h.library p
    rcases hfound : c.cachedTree l.world p with ⟨_ | src, w⟩
    · rw [hfound] at hcached
      rw [load_of_none hpending hfound]
      have hread : (w.read p).2.library.Grounded := hcached.1
      refine h.note hread p fun src hsrc => ?_
      unfold Library.treeAt at hsrc
      split at hsrc
      · exact Source.grounded_of_parse hsrc
      · cases hsrc
    · rw [hfound] at hcached
      rw [load_of_some hpending hfound]
      exact h.note hcached.1 p fun src' hsrc => by
        cases hsrc
        exact hcached.2 src rfl

theorem Loader.Grounded.loadImport (h : l.Grounded) (uri file : Text) :
    (c.loadImport uri file l).2.Grounded ∧
      ∀ src path, (c.loadImport uri file l).1 = .ok (src, path) → src.Grounded := by
  have hworld : ((l.world.resolve uri file).2).library.Grounded := h.library
  rw [Compiler.loadImport]
  rcases hresolve : l.world.resolve uri file with ⟨f | p, w⟩
  · rw [hresolve] at hworld
    exact ⟨⟨hworld, h.pending⟩, fun _ _ hok => by cases hok⟩
  · rw [hresolve] at hworld
    have hload := Loader.Grounded.load (c := c) (l := { l with world := w }) ⟨hworld, h.pending⟩ p
    dsimp only
    rcases hresult : c.load p { l with world := w } with ⟨f | src, l'⟩
    · rw [hresult] at hload
      exact ⟨hload.1, fun _ _ hok => by cases hok⟩
    · rw [hresult] at hload
      refine ⟨hload.1, fun src' path hsrc => ?_⟩
      cases hsrc
      exact hload.2 src rfl

/-- Whatever a compilation loads has no property at its top. -/
theorem grounded_of_gives {w : World} (h : w.library.Grounded) {tree : Source} {path : Text}
    (hgives : c.settings.Gives (.start w) tree path) : tree.Grounded := by
  have hleads {l : Loader} (hl : c.settings.Leads (.start w) l) : l.Grounded := by
    induction hl with
    | start => exact ⟨h, List.forall_mem_nil _⟩
    | load himporter _ uri file ih =>
      cases himporter
      exact (ih.loadImport uri file).1
  obtain ⟨importer, l, uri, file, himporter, hl, hload⟩ := hgives
  cases himporter
  exact ((hleads hl).loadImport uri file).2 tree path hload

theorem hasProperties_iff_mem (css : List Css) :
    Css.hasProperties css = true ↔ ∃ name value, Css.property name value ∈ css := by
  rw [Css.hasProperties, List.any_eq_true]
  constructor
  · rintro ⟨node, hmem, hnode⟩
    cases node with
    | property name value => exact ⟨name, value, hmem⟩
    | rule | directive | comment => cases hnode
  · rintro ⟨name, value, hmem⟩
    exact ⟨_, hmem, rfl⟩

open Expand Relation in
/-- **How declarations get to the top of a sheet.** A sheet has a declaration at the top if and only
if a property with a value is visited outside of every rule and directive. Every property that is
visited there is inside a call, a choice or a loop that is visited there too. So none gets to the
top if the outermost statements of the source, and of every file that may be loaded, are
sheltered. -/
theorem evaluate_exposes (c : Compiler) (text : Text) (w : World) (hlib : w.library.Grounded)
    {css : List Css} {w' : World} (h : c.evaluate text w = (.ok css, w')) :
    ∃ src, c.parse text = .ok src ∧
      ((∃ name value, Css.property name value ∈ css) ↔
        ∃ v, Exposed c.settings c.fuel [] src (.start w) v ∧ v.statement.declares = true) ∧
      (∀ v, Exposed c.settings c.fuel [] src (.start w) v → v.statement.isProperty = true →
        ∃ u, Exposed c.settings c.fuel [] src (.start w) u ∧ u.statement.splices = true ∧
          TransGen (Visit.Exposes c.settings) u v) ∧
      ((∀ t ∈ src.body, t.isSheltered = true) →
        (∀ tree path, c.settings.Gives (.start w) tree path →
          ∀ t ∈ tree.body, t.isSheltered = true) →
        ∀ name value, Css.property name value ∉ css) := by
  rw [evaluate] at h
  cases hparse : c.parse text with
  | error f =>
    rw [hparse] at h
    cases h
  | ok src =>
    rw [hparse] at h
    dsimp only at h
    rcases hrun : (source c.settings c.fuel [] src).run (.start w) with ⟨result, l⟩
    rw [hrun] at h
    obtain rfl : result = .ok css := congrArg Prod.fst h
    have hshown := hasProperties_iff hrun
    rw [hasProperties_iff_mem] at hshown
    refine ⟨src, rfl, hshown, fun v hv hproperty => ?_, fun hsrc hloaded name value hmem => ?_⟩
    · exact hv.exists_splice (Source.grounded_of_parse hparse)
        (fun tree path hgives => grounded_of_gives hlib hgives) hproperty
    · obtain ⟨v, hv, hdeclares⟩ := hshown.1 ⟨name, value, hmem⟩
      have hproperty := Statement.isProperty_of_declares hdeclares
      rw [Statement.isProperty_of_isSheltered (hv.isSheltered hsrc hloaded)] at hproperty
      cases hproperty

/-- A source with an import and a choice at the top, both of which expand to rules. -/
theorem evaluate_exposes_nothing :
    let d : Disk := ⟨[("b.sass", ⟨"x\n  y: z\n", 1⟩)], [], false⟩
    let w : World := ⟨d, .inMemory plainLibrary, []⟩
    let text : Text := "@import b\n@if true\n  a\n    b: c\n"
    w.library.Grounded ∧
      (∀ tree path, plainCompiler.settings.Gives (.start w) tree path →
        ∀ t ∈ tree.body, t.isSheltered = true) ∧
      ∃ css w', plainCompiler.evaluate text w = (.ok css, w') ∧ css.length = 2 ∧
        ∀ name value, Css.property name value ∉ css := by
  intro d w text
  have hlib : w.library.Grounded := List.forall_mem_nil _
  have hd : d ∈ [d] := List.mem_cons_self
  have hfaithful {l : Loader} (hl : plainCompiler.settings.Leads (.start w) l) :
      Faithful plainCompiler.propertySyntax [d] d l := by
    induction hl with
    | start => exact faithful_start rfl (Library.past_new _ plainLibrary d).stemsFrom
    | load himporter _ uri file ih =>
      cases himporter
      exact (ih.loadImport hd uri file).1
  have hloaded : ∀ tree path, plainCompiler.settings.Gives (.start w) tree path →
      ∀ t ∈ tree.body, t.isSheltered = true := by
    rintro tree path ⟨importer, l, uri, file, himporter, hl, hload⟩
    cases himporter
    obtain ⟨-, -, hfetches⟩ := (hfaithful hl).loadImport hd uri file
    obtain ⟨-, doc, ⟨d₀, hd₀, f, hlook, -, rfl⟩, htree⟩ := hfetches.exists_of_ok hload
    obtain rfl := List.mem_singleton.1 hd₀
    obtain ⟨rfl, rfl⟩ : path = "b.sass" ∧ f = ⟨"x\n  y: z\n", 1⟩ := by
      have hmem := Disk.mem_files_of_look hlook
      simpa [d] using hmem
    have hall : ((⟨"b.sass", "x\n  y: z\n", 1⟩ : Document).tree
        plainCompiler.propertySyntax).toOption.map (·.body.all (·.isSheltered)) = some true := by
      decide +kernel
    rw [htree] at hall
    exact List.all_eq_true.1 (Option.some.inj hall)
  have hsrc : (plainCompiler.parse text).toOption.map (·.body.all (·.isSheltered)) = some true := by
    decide +kernel
  have hlength : (plainCompiler.evaluate text w).1.toOption.map List.length = some 2 := by
    decide +kernel
  rcases hresult : plainCompiler.evaluate text w with ⟨stop | css, w'⟩
  · rw [hresult] at hlength
    cases hlength
  · rw [hresult] at hlength
    obtain ⟨src, hparse, -, -, hclear⟩ := evaluate_exposes plainCompiler text w hlib hresult
    rw [hparse] at hsrc
    exact ⟨hlib, hloaded, css, w', rfl, Option.some.inj hlength,
      hclear (List.all_eq_true.1 (Option.some.inj hsrc)) hloaded⟩

/-- Declarations do get to the top: from a mixin, a branch and a loop, and with them from a file
that is imported. -/
theorem declarations_at_top :
    let w : World := ⟨⟨[("m.sass", ⟨"=m\n  b: c\n+m\n", 1⟩)], [], false⟩,
      .inMemory plainLibrary, []⟩
    let texts : List Text := ["=m\n  b: c\n+m\n", "@if true\n  b: c\n",
      "$go: true\n@while $go\n  b: c\n  $go: false\n", "@import m\n"]
    ∀ text ∈ texts,
      (plainCompiler.evaluate text w).1.toOption.map Css.hasProperties = some true := by
  decide +kernel

end Compiler

end IndentedSass
